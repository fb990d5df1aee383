import BulletFarm.Interaction.Environment
import BulletFarm.Interaction.Versioned
import BulletFarm.Operator.Calls

/-!
# Runs of the operator on one task

The API server keeps the versions of the task's status; everything else the
operator talks to is left open. A run is a pool with one thread: the work queue
never hands a key to two Reconciles at once, and the operator may stop anywhere.
-/

namespace BulletFarm.Operator

open Interaction

set_option autoImplicit false

variable {W M : Type} {task : AgentTask}

/-- The status a task is created with. -/
def AgentTaskStatus.empty : AgentTaskStatus := {}

/-- The task as it stands at version `n`. -/
def AgentTask.version (task : AgentTask) (n : Nat) (s : AgentTaskStatus) : AgentTask :=
  { task with resourceVersion := n, status := s }

@[simp] theorem version_name (n : Nat) (s : AgentTaskStatus) :
    (task.version n s).name = task.name := rfl

@[simp] theorem version_status (n : Nat) (s : AgentTaskStatus) :
    (task.version n s).status = s := rfl

/-- What the calls do to the persisted task. The task exists and Reconciles are
triggered by the cache they read, so no read answers NotFound; a write whose
error reached the operator may have been applied all the same. -/
def Serve (task : AgentTask) (s : Versioned AgentTaskStatus) :
    (o : ApiOp) → o.Resp → Versioned AgentTaskStatus → Prop
  | .getTask _, .ok t, s' => ∃ n a, t = task.version n a ∧ s.Serves n a ∧ s' = s.read n
  | .getTask _, .error err, s' => err.reason ≠ .notFound ∧ s' = s
  | .updateTaskStatus t, .ok _, s' => s.Accepts t.resourceVersion ∧ s' = s.write t.status
  | .updateTaskStatus t, .error _, s' =>
    s' = s ∨ s.Accepts t.resourceVersion ∧ s' = s.write t.status
  | _, _, s' => s' = s

/-- An environment whose API server keeps the task. -/
structure Stores (task : AgentTask) (env : Environment ApiOp ApiOp.Resp W)
    (store : W → Versioned AgentTaskStatus) : Prop where
  answer : ∀ {w o r w'}, env.answer w o r w' → Serve task (store w) o r (store w')
  drift : ∀ {w w'}, env.drift w w' → store w' = store w

/-- The API server alone: whatever else the operator asks is answered at will. -/
def apiServer (task : AgentTask) :
    Environment ApiOp ApiOp.Resp (Versioned AgentTaskStatus) where
  answer := Serve task
  drift _ _ := False

theorem stores_apiServer (task : AgentTask) : Stores task (apiServer task) id :=
  ⟨fun h => h, fun h => h.elim⟩

/-- One way the rest of the world may behave: the reads are current, and a status
write goes through or fails as the flag says. -/
structure Behaviour where
  agent : Except ApiError Agent
  pod : NamespacedName → Except ApiError Pod
  created : Pod → Except ApiError Unit
  reply : WorkerURL → Except String HttpReply
  writes : Bool

namespace Behaviour

def conflict : ApiError := ⟨.conflict, "the object has been modified"⟩

def respond (b : Behaviour) (task : AgentTask) (s : Versioned AgentTaskStatus) :
    (o : ApiOp) → o.Resp × Versioned AgentTaskStatus
  | .getTask _ =>
    if s.seen ≤ s.latest then (.ok (task.version s.latest s.current), s.read s.latest)
    else (.error conflict, s)
  | .updateTaskStatus t =>
    if b.writes ∧ s.Accepts t.resourceVersion then (.ok (), s.write t.status)
    else (.error conflict, s)
  | .getAgent _ => (b.agent, s)
  | .getPod key => (b.pod key, s)
  | .listTasks _ => (.ok [], s)
  | .setControllerReference _ _ => (.ok (), s)
  | .createPod pod => (b.created pod, s)
  | .deletePod _ => (.ok (), s)
  | .updateAgentStatus _ => (.ok (), s)
  | .httpGet url => (b.reply url, s)
  | .httpPost url => (b.reply url, s)
  | .now => ((0 : Time), s)

theorem serve_respond (b : Behaviour) (task : AgentTask) (s : Versioned AgentTaskStatus)
    (o : ApiOp) : Serve task s o (b.respond task s o).1 (b.respond task s o).2 := by
  cases o with
  | getTask key =>
    by_cases h : s.seen ≤ s.latest
    · simp only [respond, if_pos h]
      exact ⟨s.latest, s.current, rfl, ⟨h, s.current_eq_getElem?⟩, rfl⟩
    · simp only [respond, if_neg h]
      exact ⟨by decide, rfl⟩
  | updateTaskStatus t =>
    by_cases h : b.writes ∧ s.Accepts t.resourceVersion
    · simp only [respond, if_pos h]
      exact ⟨h.2, rfl⟩
    · simp only [respond, if_neg h]
      exact Or.inl rfl
  | _ => rfl

end Behaviour

/-! A small task, and a cluster in which all goes well. -/

def demoTask : AgentTask where
  name := "t"
  ns := "default"
  uid := "1"
  resourceVersion := 0
  spec := ⟨"agent", "", "do it", "", none, 0⟩
  status := .empty

def demoAgent : Agent :=
  ⟨"agent", "default", ⟨"org/repo", "worker", none, ⟨"", "", ""⟩⟩, ⟨true, 0, none, none⟩⟩

def demoPod (phase : PodPhase) : Pod :=
  ⟨"worker-t", "default", [], some "1", "worker", [], phase, "10.0.0.1"⟩

def demoReply (members : List (String × Json.Value)) : Except String HttpReply :=
  .ok ⟨200, .ok (some (.obj members))⟩

/-- The worker has finished with a pull request, which is in the given state. -/
def demoCluster (merged : Bool) : Behaviour where
  agent := .ok demoAgent
  pod _ := .ok (demoPod .running)
  created _ := .ok ()
  reply url :=
    match url.endpoint with
    | .status => demoReply [("phase", .str "Succeeded"), ("pull_request_url", .str "url")]
    | .prStatus => demoReply [("state", .str "open"), ("merged", .bool merged)]
    | _ => demoReply []
  writes := true

section Stores
variable {env : Environment ApiOp ApiOp.Resp W} {store : W → Versioned AgentTaskStatus}

theorem Stores.watched (h : Stores task env store)
    (next : M → W → (o : ApiOp) → o.Resp → M) :
    Stores task (env.watched next) (fun w => store w.1) :=
  ⟨fun ha => h.answer ha.1, fun hd => h.drift hd.1⟩

/-- A call the Reconcile makes on the version it has read either leaves the
persisted task alone, or writes over that very version. -/
theorem Serve.cases {s s' : Versioned AgentTaskStatus} {a : AgentTaskStatus} {o : ApiOp}
    {r : o.Resp} (h : Serve task s o r s') (ha : s.versions[s.seen]? = some a)
    (ho : MayCall true (task.version s.seen a) o) :
    s' = s ∨ ∃ b, o = .updateTaskStatus (task.version s.seen b) ∧ s.Accepts s.seen ∧
      s.current = a ∧ MayWrite (task.version s.seen a) b ∧ s' = s.write b := by
  have hwrite : ∀ t, MayCall true (task.version s.seen a) (.updateTaskStatus t) →
      s.Accepts t.resourceVersion → s' = s.write t.status →
      ∃ b, ApiOp.updateTaskStatus t = .updateTaskStatus (task.version s.seen b) ∧
        s.Accepts s.seen ∧ s.current = a ∧ MayWrite (task.version s.seen a) b ∧ s' = s.write b := by
    rintro _ ⟨b, rfl, hb⟩ hacc hs
    exact ⟨b, rfl, hacc, hacc.current ha, hb, hs⟩
  cases o with
  | getTask key => exact ho.elim
  | updateTaskStatus t =>
    cases r with
    | ok _ => exact Or.inr (hwrite t ho h.1 h.2)
    | error err =>
      rcases h with h | h
      · exact Or.inl h
      · exact Or.inr (hwrite t ho h.1 h.2)
  | _ => exact Or.inl h

theorem Serve.read {s s' : Versioned AgentTaskStatus} {key : NamespacedName}
    {r : Except ApiError AgentTask} (h : Serve task s (.getTask key) r s') :
    s' = s ∨ ∃ n a, r = .ok (task.version n a) ∧ s.Serves n a ∧ s' = s.read n := by
  cases r with
  | error err => exact Or.inl h.2
  | ok t =>
    obtain ⟨n, a, rfl, hserves, hs⟩ := h
    exact Or.inr ⟨n, a, rfl, hserves, hs⟩

/-- The version read stays where it was read while the Reconcile goes on. -/
theorem Serve.keeps_version {s s' : Versioned AgentTaskStatus} {a : AgentTaskStatus} {o : ApiOp}
    {r : o.Resp} (h : Serve task s o r s') (ha : s.versions[s.seen]? = some a)
    (ho : MayCall true (task.version s.seen a) o) :
    s'.seen = s.seen ∧ s'.versions[s.seen]? = some a := by
  rcases h.cases ha ho with rfl | ⟨b, _, _, _, _, rfl⟩
  · exact ⟨rfl, ha⟩
  · exact ⟨Versioned.write_seen _ _, Versioned.getElem?_write ha⟩

/-- The states the operator reaches on a task. -/
abbrev Reachable (env : Environment ApiOp ApiOp.Resp W) (task : AgentTask) (w : W)
    (c : Pool Unit ApiOp ApiOp.Resp Outcome W) : Prop :=
  Pool.Reachable env (fun _ : Unit => reconcile task.key) w c

/-- Complete Reconciles on a new task, each in a world that behaves in its own way. -/
theorem reachable_plays (task : AgentTask) (bs : List Behaviour) :
    Reachable (apiServer task) task (Versioned.start .empty)
      (Pool.idle (Pool.plays (bs.map fun b => b.respond task) (reconcile task.key)
        (Versioned.start .empty))) := by
  apply Pool.Reachable.plays ?_ () .refl
  intro f hf
  obtain ⟨b, _, rfl⟩ := List.mem_map.mp hf
  exact b.serve_respond task

theorem reachable_behaviours (task : AgentTask)
    (next : M → Versioned AgentTaskStatus → (o : ApiOp) → o.Resp → M) (m : M)
    (bs : List Behaviour) :
    Reachable ((apiServer task).watched next) task (Versioned.start .empty, m)
      (Pool.idle (Pool.plays (bs.map fun b => watching (b.respond task) next)
        (reconcile task.key) (Versioned.start .empty, m))) := by
  refine Pool.Reachable.plays ?_ () .refl
  intro f hf
  obtain ⟨b, _, rfl⟩ := List.mem_map.mp hf
  exact answer_watching (b.serve_respond task) next

/-! ## One Reconcile -/

theorem Stores.drifts (hstore : Stores task env store) {w w' : W}
    (h : Relation.ReflTransGen env.drift w w') : store w' = store w := by
  induction h with
  | refl => rfl
  | tail _ hd ih => rw [hstore.drift hd, ih]

theorem Stores.executes_ret (hstore : Stores task env store) {α : Type} {a b : α} {w w' : W}
    {tr : List (Event ApiOp.Resp)} (h : Executes env (.ret a) w tr b w') :
    tr = [] ∧ b = a ∧ store w' = store w := by
  obtain ⟨htr, hb, hd⟩ := h.of_ret
  exact ⟨htr, hb, hstore.drifts hd⟩

theorem Stores.executes_call (hstore : Stores task env store) {α : Type} {o : ApiOp}
    {next : o.Resp → OperatorM α} {a : α} {w w' : W} {tr : List (Event ApiOp.Resp)}
    (h : Executes env (.call o next) w tr a w') :
    ∃ r w₁ tr', tr = ⟨o, r⟩ :: tr' ∧ Serve task (store w) o r (store w₁) ∧
      Executes env (next r) w₁ tr' a w' := by
  obtain ⟨w₁, r, w₂, tr', hd, ha, rfl, hn⟩ := h.of_call
  have hserve := hstore.answer ha
  rw [hstore.drifts hd] at hserve
  exact ⟨r, w₂, tr', rfl, hserve, hn⟩

/-- Calls that have nothing to do with the persisted task. -/
def Elsewhere : ApiOp → Prop
  | .getTask _ => False
  | .updateTaskStatus _ => False
  | _ => True

theorem Stores.executes_elsewhere (hstore : Stores task env store) {α : Type} {p : OperatorM α}
    (hp : p.Uses Elsewhere) {a : α} {w w' : W} {tr : List (Event ApiOp.Resp)}
    (h : Executes env p w tr a w') : store w' = store w := by
  induction h with
  | ret a w => rfl
  | @call o next w w₁ w₂ r tr a ha _ ih =>
    have hsame : store w₁ = store w := by
      have hserve := hstore.answer ha
      have ho := hp.1
      cases o with
      | getTask key => exact ho.elim
      | updateTaskStatus t => exact ho.elim
      | _ => exact hserve
    rw [ih (hp.2 r), hsame]
  | drift hd _ ih => rw [ih hp, hstore.drift hd]

theorem Stores.executes_bind (hstore : Stores task env store) {α β : Type} {p : OperatorM α}
    (hp : p.Uses Elsewhere) {f : α → OperatorM β} {b : β} {w w' : W}
    {tr : List (Event ApiOp.Resp)} (h : Executes env (p >>= f) w tr b w') :
    ∃ tr₁ tr₂ a w₁, tr = tr₁ ++ tr₂ ∧ store w₁ = store w ∧ Executes env (f a) w₁ tr₂ b w' := by
  obtain ⟨tr₁, tr₂, a, w₁, rfl, hfirst, hrest⟩ := h.of_bind
  exact ⟨tr₁, tr₂, a, w₁, rfl, hstore.executes_elsewhere hp hfirst, hrest⟩

theorem updateAgentStatus_elsewhere (agentName ns : String) :
    (updateAgentStatus agentName ns).Uses Elsewhere :=
  updateAgentStatus_uses (fun o h => by cases o <;> trivial) agentName ns

theorem cleanupWorkerPod_elsewhere (podName ns : String) :
    (cleanupWorkerPod podName ns).Uses Elsewhere :=
  cleanupWorkerPod_uses (fun o h => by cases o <;> trivial) podName ns
    fun _ => trivial

/-- A Reconcile reads the task first; if that fails it does nothing else. -/
theorem Stores.executes_reconcile (hstore : Stores task env store) {w w' : W}
    {tr : List (Event ApiOp.Resp)} {out : Outcome}
    (h : Executes env (reconcile task.key) w tr out w') :
    (∃ err, out = .error err ∧ tr = [⟨.getTask task.key, .error err⟩] ∧ store w' = store w) ∨
    ∃ n a w₁ tr', tr = ⟨.getTask task.key, .ok (task.version n a)⟩ :: tr' ∧
      (store w).Serves n a ∧ store w₁ = (store w).read n ∧
      Executes env (dispatch (task.version n a)) w₁ tr' out w' := by
  obtain ⟨r, w₁, tr', rfl, hserve, hn⟩ := hstore.executes_call h
  cases r with
  | error err =>
    left
    change Executes env (if err.reason = .notFound then _ else _) w₁ tr' out w' at hn
    rw [if_neg hserve.1] at hn
    obtain ⟨rfl, rfl, hsame⟩ := hstore.executes_ret hn
    exact ⟨err, rfl, rfl, by rw [hsame, hserve.2]⟩
  | ok t =>
    right
    obtain ⟨n, a, rfl, hserves, hread⟩ := hserve
    exact ⟨n, a, w₁, tr', rfl, hserves, hread, hn⟩

/-! ## Invariants -/

/-- An invariant of the operator's runs, with what the answers to a Reconcile have
established so far: the world's own moves, the reads of the task, and the calls that may
follow these answers keep it. -/
theorem Stores.invariant_follows (hstore : Stores task env store)
    {ok : AgentTask → List (Event ApiOp.Resp) → ApiOp → Prop}
    (hok : ∀ t, (dispatch t).Follows (ok t) [])
    (hmay : ∀ t tr o, ok t tr o → MayCall true t o) (inv : W → Prop)
    (held : AgentTaskStatus → List (Event ApiOp.Resp) → W → Prop)
    (drift : ∀ w w', inv w → env.drift w w' → inv w')
    (drift_held : ∀ a tr w w', held a tr w → env.drift w w' → held a tr w')
    (read : ∀ w r w', inv w → env.answer w (.getTask task.key) r w' →
      inv w' ∧ ∀ n a, r = .ok (task.version n a) → held a [] w')
    (step : ∀ w o r w' a tr, inv w → held a tr w →
      (store w).versions[(store w).seen]? = some a → ok (task.version (store w).seen a) tr o →
      env.answer w o r w' → inv w' ∧ held a (tr ++ [⟨o, r⟩]) w')
    {w₀ : W} (h₀ : inv w₀) {c : Pool Unit ApiOp ApiOp.Resp Outcome W}
    (hc : Reachable env task w₀ c) : inv c.world := by
  refine Pool.Reachable.invariant inv (fun _ => env.drift) (fun _ _ _ => True)
    drift (fun _ _ _ h => h) (fun i j _ _ hij => absurd rfl hij) (fun _ w hw => ?_) h₀ hc
  have hseen : ∀ (n : Nat) (a : AgentTaskStatus) (w : W),
      inv w ∧ held a [] w ∧ (store w).seen = n ∧ (store w).versions[n]? = some a →
      Keeps env inv env.drift (fun _ _ => True) (fun _ _ => True)
        (dispatch (task.version n a)) w := by
    intro n a w hw
    have hkeep : Keeps env inv env.drift (fun _ _ => True)
        (fun _ w => ∃ tr, inv w ∧ held a tr w ∧ (store w).seen = n ∧
          (store w).versions[n]? = some a) (dispatch (task.version n a)) w := by
      refine Keeps.of_follows (hok (task.version n a)) hw ?_ ?_
      · intro tr w₁ w₂ h hd
        rw [hstore.drift hd]
        exact ⟨drift _ _ h.1 hd, drift_held _ _ _ _ h.2.1 hd, h.2.2⟩
      · rintro tr o ho w₁ r w₂ ⟨hi, hheld, rfl, ha⟩ hans
        obtain ⟨hi', hheld'⟩ := step w₁ o r w₂ a tr hi hheld ha ho hans
        exact ⟨hi', trivial, hi', hheld',
          (hstore.answer hans).keeps_version ha (hmay _ _ _ ho)⟩
    exact hkeep.mono fun _ _ _ => trivial
  refine Keeps.call
    (fun r w => ∀ t, r = .ok t → ∃ n a, t = task.version n a ∧
      held a [] w ∧ (store w).seen = n ∧ (store w).versions[n]? = some a)
    (fun r w₁ w₂ h hd _ => ?_) (fun w₁ w₂ hi hd => drift _ _ hi hd) (fun r w₁ hans => ?_)
    (fun r w₁ hi h => ?_)
  · rintro t ht
    obtain ⟨n, a, rfl, hheld, hn⟩ := h t ht
    rw [hstore.drift hd]
    exact ⟨n, a, rfl, drift_held _ _ _ _ hheld hd, hn⟩
  · obtain ⟨hi, hheld⟩ := read _ _ _ hw hans
    refine ⟨hi, trivial, ?_⟩
    rintro t rfl
    obtain ⟨n, a, rfl, hserves, hs⟩ := hstore.answer hans
    refine ⟨n, a, rfl, hheld n a rfl, ?_⟩
    rw [hs]
    exact ⟨rfl, hserves.2⟩
  · cases r with
    | error err =>
      change Keeps env inv _ _ _ (if err.reason = .notFound then _ else _) w₁
      split <;> trivial
    | ok t =>
      obtain ⟨n, a, rfl, hn⟩ := h t rfl
      exact hseen n a w₁ ⟨hi, hn⟩

/-- The same when nothing but the version read bounds the calls. -/
theorem Stores.invariant_held (hstore : Stores task env store) (inv : W → Prop)
    (held : AgentTaskStatus → W → Prop) (drift : ∀ w w', inv w → env.drift w w' → inv w')
    (drift_held : ∀ a w w', held a w → env.drift w w' → held a w')
    (read : ∀ w r w', inv w → env.answer w (.getTask task.key) r w' →
      inv w' ∧ ∀ n a, r = .ok (task.version n a) → held a w')
    (step : ∀ w o r w' a, inv w → held a w → (store w).versions[(store w).seen]? = some a →
      MayCall true (task.version (store w).seen a) o → env.answer w o r w' → inv w' ∧ held a w')
    {w₀ : W} (h₀ : inv w₀) {c : Pool Unit ApiOp ApiOp.Resp Outcome W}
    (hc : Reachable env task w₀ c) : inv c.world :=
  have hok : ∀ t, (dispatch t).Follows (fun _ o => MayCall true t o) [] :=
    fun t => (dispatch_uses t).follows fun _ _ h => h
  hstore.invariant_follows hok (fun _ _ _ h => h) inv (fun a _ => held a) drift
    (fun a _ => drift_held a) read (fun w o r w' a _ => step w o r w' a) h₀ hc

theorem Stores.invariant (hstore : Stores task env store) (inv : W → Prop)
    (drift : ∀ w w', inv w → env.drift w w' → inv w')
    (read : ∀ w r w', inv w → env.answer w (.getTask task.key) r w' → inv w')
    (step : ∀ w o r w' a, inv w → (store w).versions[(store w).seen]? = some a →
      MayCall true (task.version (store w).seen a) o → env.answer w o r w' → inv w')
    {w₀ : W} (h₀ : inv w₀) {c : Pool Unit ApiOp ApiOp.Resp Outcome W}
    (hc : Reachable env task w₀ c) : inv c.world := by
  refine hstore.invariant_held inv (fun _ _ => True) drift (fun _ _ _ _ _ => trivial) ?_ ?_ h₀ hc
  · exact fun w r w' h hans => ⟨read w r w' h hans, fun _ _ _ => trivial⟩
  · exact fun w o r w' a h _ ha ho hans => ⟨step w o r w' a h ha ho hans, trivial⟩

end Stores

end BulletFarm.Operator
