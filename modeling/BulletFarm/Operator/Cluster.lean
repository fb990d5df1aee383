import BulletFarm.Operator.TaskRun

/-!
# The cluster around one task

Besides the persisted task there are the pods of the namespace and the pull
request. Pods come from the operator and go some time after their deletion was
accepted; a merge is permanent; the worker reports the pull request as it is or
not at all. What the worker keeps elsewhere is an environment of its own.
-/

namespace BulletFarm.Operator

open Interaction

set_option autoImplicit false

/-- The pods of the namespace, and the names of those whose deletion was accepted. -/
structure Pods where
  existing : List Pod
  deleting : List String
deriving DecidableEq

namespace Pods

def find (p : Pods) (name : String) : Option Pod := p.existing.find? fun pod => pod.name = name

def add (p : Pods) (pod : Pod) : Pods := { p with existing := p.existing ++ [pod] }

def delete (p : Pods) (name : String) : Pods := { p with deleting := name :: p.deleting }

def vanish (p : Pods) (name : String) : Pods where
  existing := p.existing.filter fun pod => pod.name ≠ name
  deleting := p.deleting.filter fun other => other ≠ name

/-- The kubelet reports on a pod. -/
def report (p : Pods) (name : String) (phase : PodPhase) (podIP : String) : Pods where
  existing := p.existing.map fun pod =>
    if pod.name = name then { pod with phase := phase, podIP := podIP } else pod
  deleting := p.deleting

/-- What the calls do to the pods; a failed request may have been carried out. -/
def Serve (p : Pods) : (o : ApiOp) → o.Resp → Pods → Prop
  | .getPod key, .ok pod, p' => p.find key.name = some pod ∧ p' = p
  | .getPod key, .error err, p' => (err.reason = .notFound → p.find key.name = none) ∧ p' = p
  | .createPod pod, .ok _, p' => p.find pod.name = none ∧ p' = p.add pod
  | .createPod pod, .error err, p' =>
    (err.reason = .alreadyExists → p.find pod.name ≠ none) ∧
      (p' = p ∨ p.find pod.name = none ∧ p' = p.add pod)
  | .deletePod key, .ok _, p' => p' = p.delete key.name
  | .deletePod key, .error _, p' => p' = p ∨ p' = p.delete key.name
  | _, _, p' => p' = p

inductive Drift : Pods → Pods → Prop where
  | vanish {p : Pods} {name : String} : name ∈ p.deleting → Drift p (p.vanish name)
  | report (p : Pods) (name : String) (phase : PodPhase) (podIP : String) :
      Drift p (p.report name phase podIP)

end Pods

/-- The worker says merged only of a merged pull request, and closed only of one
that is not merged. A worker that cannot find out says neither. -/
def ReportsPR (merged : Bool) : (o : ApiOp) → o.Resp → Prop
  | .httpGet url, reply => url.endpoint = .prStatus → ∀ s : PRStatusResponse,
    decodeReply {} PRStatusResponse.set reply = .ok s →
      (s.merged = true → merged = true) ∧ (s.merged = false → s.state = "closed" → merged = false)
  | _, _ => True

structure Cluster (E : Type) where
  store : Versioned AgentTaskStatus
  pods : Pods
  merged : Bool
  rest : E

variable {E : Type}

/-- A new task in a namespace without pods; its pull request does not exist yet. -/
def Cluster.start (e : E) : Cluster E := ⟨Versioned.start .empty, ⟨[], []⟩, false, e⟩

inductive Cluster.Drift (env : Environment ApiOp ApiOp.Resp E) : Cluster E → Cluster E → Prop where
  | pods {c : Cluster E} {p : Pods} : c.pods.Drift p → Drift env c { c with pods := p }
  | merge (c : Cluster E) : Drift env c { c with merged := true }
  | rest {c : Cluster E} {e : E} : env.drift c.rest e → Drift env c { c with rest := e }

def cluster (task : AgentTask) (env : Environment ApiOp ApiOp.Resp E) :
    Environment ApiOp ApiOp.Resp (Cluster E) where
  answer c o r c' := Serve task c.store o r c'.store ∧ c.pods.Serve o r c'.pods ∧
    ReportsPR c.merged o r ∧ c'.merged = c.merged ∧ env.answer c.rest o r c'.rest
  drift := Cluster.Drift env

variable {task : AgentTask} {env : Environment ApiOp ApiOp.Resp E}

theorem Cluster.Drift.store_eq {c c' : Cluster E} (h : c.Drift env c') : c'.store = c.store := by
  cases h <;> rfl

theorem Cluster.Drift.merged {c c' : Cluster E} (h : c.Drift env c') (hm : c.merged = true) :
    c'.merged = true := by
  cases h with
  | pods _ => exact hm
  | merge => rfl
  | rest _ => exact hm

/-! A cluster in which all calls succeed, but perhaps the status writes. -/

/-- The worker has finished with a pull request, and reports its state. -/
def demoWorker (merged : Bool) (url : WorkerURL) : Except String HttpReply :=
  match url.endpoint with
  | .status => demoReply [("phase", .str "Succeeded"), ("pull_request_url", .str "url")]
  | .prStatus => demoReply [("state", .str (if merged then "merged" else "open")),
      ("merged", .bool merged)]
  | _ => demoReply []

theorem reportsPR_demoWorker (merged : Bool) (url : WorkerURL) :
    ReportsPR merged (.httpGet url) (demoWorker merged url) := by
  intro hurl s hs
  unfold demoWorker at hs
  rw [hurl] at hs
  cases merged with
  | true =>
    have hdecode : decodeReply {} PRStatusResponse.set
        (demoReply [("state", .str "merged"), ("merged", .bool true)]) =
          .ok { state := "merged", merged := true } := rfl
    have heq := Except.ok.inj (hdecode.symm.trans hs)
    subst heq
    exact ⟨fun _ => rfl, fun h => by cases h⟩
  | false =>
    have hdecode : decodeReply {} PRStatusResponse.set
        (demoReply [("state", .str "open"), ("merged", .bool false)]) =
          .ok { state := "open", merged := false } := rfl
    have heq := Except.ok.inj (hdecode.symm.trans hs)
    subst heq
    exact ⟨fun h => h, fun _ _ => rfl⟩

/-- The pods after a call that succeeds. -/
def Pods.after (p : Pods) : ApiOp → Pods
  | .createPod pod => if p.find pod.name = none then p.add pod else p
  | .deletePod key => p.delete key.name
  | _ => p

namespace Cluster

def behaviour (c : Cluster E) (writes : Bool) : Behaviour where
  agent := .ok demoAgent
  pod key :=
    match c.pods.find key.name with
    | some pod => .ok pod
    | none => .error ⟨.notFound, "not found"⟩
  created pod :=
    if c.pods.find pod.name = none then .ok () else .error ⟨.alreadyExists, "already exists"⟩
  reply := demoWorker c.merged
  writes := writes

def respond (task : AgentTask) (writes : Bool) (c : Cluster E) (o : ApiOp) :
    o.Resp × Cluster E :=
  (((c.behaviour writes).respond task c.store o).1,
    { c with
      store := ((c.behaviour writes).respond task c.store o).2
      pods := c.pods.after o })

/-- Nothing is said about the rest of the world. -/
def free : Environment ApiOp ApiOp.Resp Unit where
  answer _ _ _ _ := True
  drift _ _ := False

theorem answer_respond_of {task : AgentTask} {writes : Bool} {c : Cluster E} {o : ApiOp}
    (hrest : env.answer c.rest o (c.respond task writes o).1 c.rest) :
    (cluster task env).answer c o (c.respond task writes o).1 (c.respond task writes o).2 := by
  refine ⟨(c.behaviour writes).serve_respond task c.store o, ?_, ?_, rfl, hrest⟩
  · cases o with
    | getPod key =>
      simp only [respond, Behaviour.respond, behaviour]
      cases hfind : c.pods.find key.name with
      | some pod => exact ⟨hfind, rfl⟩
      | none => exact ⟨fun _ => hfind, rfl⟩
    | createPod pod =>
      by_cases hfind : c.pods.find pod.name = none
      · simp only [respond, Behaviour.respond, behaviour, Pods.after, hfind, if_true]
        exact ⟨hfind, rfl⟩
      · simp only [respond, Behaviour.respond, behaviour, Pods.after, hfind, if_false]
        exact ⟨fun _ => hfind, Or.inl rfl⟩
    | getTask key =>
      simp only [respond, Behaviour.respond]
      split <;> rfl
    | updateTaskStatus t =>
      simp only [respond, Behaviour.respond]
      split <;> rfl
    | _ => rfl
  · cases o with
    | httpGet url => exact reportsPR_demoWorker c.merged url
    | _ => trivial

theorem answer_respond (task : AgentTask) (writes : Bool) (c : Cluster Unit) (o : ApiOp) :
    (cluster task free).answer c o (c.respond task writes o).1 (c.respond task writes o).2 :=
  answer_respond_of trivial

end Cluster

end BulletFarm.Operator
