import BulletFarm.Operator.Leaks
import BulletFarm.Operator.Namespace
import BulletFarm.Operator.Reasons
import BulletFarm.Worker.Registry

/-!
# The operator and the workers of one task

Every pod the operator creates may be started, as a process with its own registry, and
is then reached at its IP, which no other pod of the task gets. What the operator hears
of a worker's task comes from the registry of that process.
-/

namespace BulletFarm.System

open Interaction Program Operator
open Worker (Process TaskRequest TaskStatus getTaskStatus requestOf runTask startupRequest)

set_option autoImplicit false

/-- The reply of the status route. -/
def statusReply (status : TaskStatus) : Except String HttpReply :=
  .ok ⟨200, .ok (some status.toJson)⟩

/-- The status as the operator knows it. -/
def reported (status : TaskStatus) : WorkerStatus where
  taskID := status.taskID
  phase := status.phase.value
  progress := status.progress
  message := status.message
  pullRequestURL := status.pullRequestURL
  rateLimited := status.rateLimited
  incompleteReason := status.incompleteReason

theorem decodeReply_statusReply (status : TaskStatus) :
    decodeReply {} WorkerStatus.set (statusReply status) =
      match Go.parseInt (toString status.progress) with
      | none => .error .unmarshalling
      | some progress => .ok { reported status with progress := progress } := by
  have htaskID : ∀ (s : WorkerStatus) v, s.set "task_id" v =
      (Go.stringField v s.taskID).map fun x => { s with taskID := x } := fun _ _ => rfl
  have hphase : ∀ (s : WorkerStatus) v, s.set "phase" v =
      (Go.stringField v s.phase).map fun x => { s with phase := x } := fun _ _ => rfl
  have hprogress : ∀ (s : WorkerStatus) v, s.set "progress" v =
      (Go.intField v s.progress).map fun x => { s with progress := x } := fun _ _ => rfl
  have hmessage : ∀ (s : WorkerStatus) v, s.set "message" v =
      (Go.stringField v s.message).map fun x => { s with message := x } := fun _ _ => rfl
  have hurl : ∀ (s : WorkerStatus) v, s.set "pull_request_url" v =
      (Go.stringField v s.pullRequestURL).map fun x => { s with pullRequestURL := x } :=
    fun _ _ => rfl
  have hlimited : ∀ (s : WorkerStatus) v, s.set "rate_limited" v =
      (Go.boolField v s.rateLimited).map fun x => { s with rateLimited := x } := fun _ _ => rfl
  have hstate : ∀ (s : WorkerStatus) v, s.set "pr_state" v = some s := fun _ _ => rfl
  have hreason : ∀ (s : WorkerStatus) v, s.set "incomplete_reason" v =
      (Go.stringField v s.incompleteReason).map fun x => { s with incompleteReason := x } :=
    fun _ _ => rfl
  simp only [decodeReply, statusReply, TaskStatus.toJson, Go.unmarshal, Option.bind_some,
    List.foldlM_cons, List.foldlM_nil, htaskID, hphase, hprogress, hmessage, hurl, hlimited,
    hstate, hreason, Go.stringField, Go.intField, Go.boolField, Option.map_some,
    Option.bind_eq_bind]
  cases Go.parseInt (toString status.progress) with
  | none => rfl
  | some progress => rfl

/-- What the operator decodes from the reply is what the worker has put into it. -/
theorem decode_statusReply {status : TaskStatus} {s : WorkerStatus}
    (h : decodeReply {} WorkerStatus.set (statusReply status) = .ok s) :
    s.phase = status.phase.value ∧ s.pullRequestURL = status.pullRequestURL := by
  rw [decodeReply_statusReply] at h
  split at h
  · cases h
  · cases h
    exact ⟨rfl, rfl⟩

theorem parseInt_toString {n : Int} (h : -2 ^ 63 ≤ n ∧ n < 2 ^ 63) :
    Go.parseInt (toString n) = some n := by
  have hrepr : toString n = n.repr := rfl
  unfold Go.parseInt
  rw [hrepr, Int.toInt?_repr]
  exact if_pos h

theorem decode_reported {status : TaskStatus} (h : 0 ≤ status.progress ∧ status.progress ≤ 100) :
    decodeReply {} WorkerStatus.set (statusReply status) = .ok (reported status) := by
  rw [decodeReply_statusReply, parseInt_toString ⟨by omega, by omega⟩]
  rfl

/-! ## The fleet -/

/-- A pod that was started, with its IP, its GitHub token and its process. -/
structure Runner where
  pod : Pod
  ip : String
  token : String
  process : Process

/-- The persisted task, its pods, and everything that was ever started in one of them. -/
structure Fleet where
  store : Versioned AgentTaskStatus
  pods : Pods
  runners : List Runner

namespace Fleet

def start : Fleet := ⟨Versioned.start .empty, ⟨[], []⟩, []⟩

/-- A pod of this name was started at this IP. -/
def At (f : Fleet) (name ip : String) : Prop := ∃ x ∈ f.runners, x.pod.name = name ∧ x.ip = ip

/-- What the operator hears. A pod may be read as it once was; a status it can decode is
the one that the worker at this IP has of the task. -/
def Hears (f : Fleet) : (o : ApiOp) → o.Resp → Prop
  | .getPod key, .ok pod => pod.podIP ≠ "" → f.At key.name pod.podIP
  | .httpGet url, reply => url.endpoint = .status → ∀ s : WorkerStatus,
    decodeReply {} WorkerStatus.set reply = .ok s → ∃ x ∈ f.runners, x.ip = url.podIP ∧
      ∃ status, getTaskStatus x.process.statuses url.taskID = .ok status ∧
        reply = statusReply status
  | _, _ => True

/-- Pods are reported on and go, are started, and their workers work. -/
inductive Drift : Fleet → Fleet → Prop where
  | pods {f : Fleet} {p : Pods} : f.pods.Churn p → Drift f { f with pods := p }
  | boot {f : Fleet} {name ip token : String} {pod : Pod} : f.pods.find name = some pod →
      (∀ x ∈ f.runners, x.ip ≠ ip) → Drift f { f with
        runners := f.runners ++ [⟨pod, ip, token, .boot token (startupRequest pod)⟩] }
  | work {f : Fleet} {before after : List Runner} {x : Runner} {process : Process} :
      f.runners = before ++ x :: after → x.process.Step process →
      Drift f { f with runners := before ++ { x with process := process } :: after }

end Fleet

def fleet (task : AgentTask) : Environment ApiOp ApiOp.Resp Fleet where
  answer f o r f' := Serve task f.store o r f'.store ∧ f.pods.Change o r f'.pods ∧ f.Hears o r ∧
    f'.runners = f.runners
  drift := Fleet.Drift

variable {task : AgentTask} {f f' : Fleet}

theorem Fleet.Drift.store_eq (h : f.Drift f') : f'.store = f.store := by
  cases h <;> rfl

theorem stores_fleet (task : AgentTask) : Stores task (fleet task) Fleet.store :=
  ⟨fun h => h.1, fun h => h.store_eq⟩

/-! ## What a worker has told -/

/-- The same pod at the same IP, some steps later. -/
structure Runner.Later (x x' : Runner) : Prop where
  pod : x'.pod = x.pod
  ip : x'.ip = x.ip
  token : x'.token = x.token
  process : Relation.ReflTransGen Process.Step x.process x'.process

theorem Runner.Later.refl (x : Runner) : x.Later x := ⟨rfl, rfl, rfl, .refl⟩

theorem Fleet.Drift.later (h : f.Drift f') {x : Runner} (hx : x ∈ f.runners) :
    ∃ x' ∈ f'.runners, x.Later x' := by
  cases h with
  | pods _ => exact ⟨x, hx, .refl x⟩
  | boot _ _ => exact ⟨x, List.mem_append_left _ hx, .refl x⟩
  | @work before after y process hrunners hstep =>
    rw [hrunners] at hx
    rcases List.mem_append.mp hx with hx | hx
    · exact ⟨x, List.mem_append_left _ hx, .refl x⟩
    · rcases List.mem_cons.mp hx with rfl | hx
      · exact ⟨_, List.mem_append_right _ List.mem_cons_self, ⟨rfl, rfl, rfl, .single hstep⟩⟩
      · exact ⟨x, List.mem_append_right _ (List.mem_cons_of_mem _ hx), .refl x⟩

theorem Fleet.Drift.earlier (h : f.Drift f') {x' : Runner} (hx : x' ∈ f'.runners) :
    (∃ x ∈ f.runners, x.Later x') ∨ ∃ name ip token pod, f.pods.find name = some pod ∧
      x' = ⟨pod, ip, token, .boot token (startupRequest pod)⟩ := by
  cases h with
  | pods _ => exact Or.inl ⟨x', hx, .refl x'⟩
  | @boot name ip token pod hfind _ =>
    rcases List.mem_append.mp hx with hx | hx
    · exact Or.inl ⟨x', hx, .refl x'⟩
    · exact Or.inr ⟨name, ip, token, pod, hfind, List.mem_singleton.mp hx⟩
  | @work before after y process hrunners hstep =>
    left
    rw [hrunners]
    rcases List.mem_append.mp hx with hx | hx
    · exact ⟨x', List.mem_append_left _ hx, .refl x'⟩
    · rcases List.mem_cons.mp hx with rfl | hx
      · exact ⟨y, List.mem_append_right _ List.mem_cons_self, ⟨rfl, rfl, rfl, .single hstep⟩⟩
      · exact ⟨x', List.mem_append_right _ (List.mem_cons_of_mem _ hx), .refl x'⟩

theorem Fleet.At.drift {name ip : String} (h : f.At name ip) (hd : f.Drift f') : f'.At name ip := by
  obtain ⟨x, hx, rfl, rfl⟩ := h
  obtain ⟨x', hx', hlater⟩ := hd.later hx
  exact ⟨x', hx', by rw [hlater.pod], hlater.ip⟩

/-- The status the operator has decoded is one the worker had: of a run that was not over,
or the one its run has left. -/
def Runner.Tells (x : Runner) (s : WorkerStatus) : Prop :=
  ∃ request status, startupRequest x.pod = some request ∧ s.phase = status.phase.value ∧
    s.pullRequestURL = status.pullRequestURL ∧
    (Process.Unfinished status ∨ Process.Ended x.token request x.process status)

theorem Runner.Tells.later {x x' : Runner} {s : WorkerStatus} (h : x.Tells s) (hlater : x.Later x') :
    x'.Tells s := by
  obtain ⟨request, status, hrequest, hphase, hurl, hstatus⟩ := h
  refine ⟨request, status, by rw [hlater.pod]; exact hrequest, hphase, hurl, ?_⟩
  rw [hlater.token]
  exact hstatus.imp_right fun hended => hended.later hlater.process

/-- What an answer to a Reconcile has established for good. -/
def Told (f : Fleet) : Event ApiOp.Resp → Prop
  | ⟨.getPod key, .ok pod⟩ => pod.podIP ≠ "" → f.At key.name pod.podIP
  | ⟨.httpGet url, reply⟩ => url.endpoint = .status → ∀ s : WorkerStatus,
    decodeReply {} WorkerStatus.set reply = .ok s → ∃ x ∈ f.runners, x.ip = url.podIP ∧ x.Tells s
  | _ => True

theorem Told.drift {e : Event ApiOp.Resp} (h : Told f e) (hd : f.Drift f') : Told f' e := by
  obtain ⟨o, r⟩ := e
  cases o with
  | getPod key =>
    cases r with
    | ok pod => exact fun hip => (h hip).drift hd
    | error err => trivial
  | httpGet url =>
    intro hurl s hs
    obtain ⟨x, hx, hip, htells⟩ := h hurl s hs
    obtain ⟨x', hx', hlater⟩ := hd.later hx
    exact ⟨x', hx', hlater.ip.trans hip, htells.later hlater⟩
  | _ => trivial

theorem Told.congr {e : Event ApiOp.Resp} (h : Told f e) (hrunners : f'.runners = f.runners) :
    Told f' e := by
  obtain ⟨o, r⟩ := e
  cases o with
  | getPod key =>
    cases r with
    | ok pod =>
      intro hip
      unfold Fleet.At
      rw [hrunners]
      exact h hip
    | error err => trivial
  | httpGet url =>
    intro hurl s hs
    rw [hrunners]
    exact h hurl s hs
  | _ => trivial

/-! ## What holds of every fleet -/

/-- The pod was made for a version of the task that was Pending. -/
def Born (task : AgentTask) (s : Versioned AgentTaskStatus) (pod : Pod) : Prop :=
  ∃ n a agent, a ∈ s.versions ∧ a.phase = .pending ∧
    pod.name = (podFor (task.version n a) agent).name ∧
    startupRequest pod = startupRequest (podFor (task.version n a) agent)

structure FleetInv (task : AgentTask) (f : Fleet) : Prop where
  lifecycle : TaskInv task.spec f.store
  attended : ∀ a ∈ f.store.versions, Attended task a
  pods : ∀ pod ∈ f.pods.existing, Born task f.store pod
  runners : ∀ x ∈ f.runners, Born task f.store x.pod ∧
    Process.Reached x.token (startupRequest x.pod) x.process
  alone : (f.runners.map Runner.ip).Nodup

theorem Born.mono {s s' : Versioned AgentTaskStatus} {pod : Pod} (h : Born task s pod)
    (hversions : ∀ a ∈ s.versions, a ∈ s'.versions) : Born task s' pod := by
  obtain ⟨n, a, agent, ha, hrest⟩ := h
  exact ⟨n, a, agent, hversions a ha, hrest⟩

theorem Born.congr {s : Versioned AgentTaskStatus} {pod pod' : Pod} (h : Born task s pod)
    (hname : pod'.name = pod.name) (henv : pod'.env = pod.env) : Born task s pod' := by
  obtain ⟨n, a, agent, ha, hpending, hname', hrequest⟩ := h
  refine ⟨n, a, agent, ha, hpending, hname.trans hname', ?_⟩
  rw [← hrequest]
  unfold startupRequest
  rw [henv]

namespace FleetInv

theorem start (task : AgentTask) : FleetInv task Fleet.start := by
  refine ⟨TaskInv.start task.spec, ?_, ?_, ?_, ?_⟩
  · intro a ha
    have hempty : a = .empty := by simpa [Fleet.start] using ha
    intro hphase
    exact absurd hphase (by simp [hempty, AgentTaskStatus.empty])
  · simp [Fleet.start]
  · simp [Fleet.start]
  · simp [Fleet.start]

theorem drift (h : FleetInv task f) (hd : f.Drift f') : FleetInv task f' := by
  have hstore := hd.store_eq
  have hpods : ∀ pod ∈ f'.pods.existing, Born task f.store pod := by
    intro pod hpod
    cases hd with
    | pods hchurn =>
      obtain ⟨old, hold, hname, henv⟩ := hchurn.existing hpod
      exact (h.pods old hold).congr hname henv
    | boot _ _ => exact h.pods pod hpod
    | work _ _ => exact h.pods pod hpod
  refine ⟨hstore ▸ h.lifecycle, hstore ▸ h.attended, hstore ▸ hpods, ?_, ?_⟩
  · intro x' hx'
    rw [hstore]
    rcases hd.earlier hx' with ⟨x, hx, hlater⟩ | ⟨name, ip, token, pod, hfind, rfl⟩
    · obtain ⟨hborn, hreached⟩ := h.runners x hx
      rw [hlater.pod, hlater.token]
      exact ⟨hborn, hreached.trans hlater.process⟩
    · exact ⟨h.pods pod (List.mem_of_find?_eq_some hfind), .refl⟩
  · cases hd with
    | pods _ => exact h.alone
    | boot _ hfresh =>
      rw [List.map_append, List.nodup_append]
      refine ⟨h.alone, by simp, ?_⟩
      intro ip hip ip' hip'
      obtain ⟨x, hx, rfl⟩ := List.mem_map.mp hip
      rw [List.map_singleton, List.mem_singleton] at hip'
      rw [hip']
      exact hfresh x hx
    | work hrunners _ =>
      have halone := h.alone
      rw [hrunners] at halone
      simpa using halone

theorem call (h : FleetInv task f) {a : AgentTaskStatus} {o : ApiOp} {r : o.Resp}
    (ha : f.store.versions[f.store.seen]? = some a)
    (ho : MayCall true (task.version f.store.seen a) o) (hans : (fleet task).answer f o r f') :
    FleetInv task f' := by
  obtain ⟨hserve, hchange, _, hrunners⟩ := hans
  have hmem := List.mem_of_getElem? ha
  have hgrows : ∀ b ∈ f.store.versions, b ∈ f'.store.versions :=
    fun b hb => (hserve.grows ha ho).subset hb
  refine ⟨h.lifecycle.serve hserve ha ho, ?_, ?_, ?_, ?_⟩
  · rcases hserve.cases ha ho with hsame | ⟨b, _, _, _, hwrite, hstore⟩
    · rw [hsame]
      exact h.attended
    · rw [hstore]
      intro c hc
      rcases Versioned.mem_write hc with hc | rfl
      · exact h.attended c hc
      · exact hwrite.attended (h.lifecycle.known hmem) (h.attended a hmem)
  · intro pod hpod
    rcases hchange.existing hpod with hpod | rfl
    · exact (h.pods pod hpod).mono hgrows
    · obtain ⟨hpending, agent, rfl⟩ := ho
      exact ⟨_, a, agent, hgrows a hmem, hpending, rfl, rfl⟩
  · rw [hrunners]
    intro x hx
    obtain ⟨hborn, hreached⟩ := h.runners x hx
    exact ⟨hborn.mono hgrows, hreached⟩
  · rw [hrunners]
    exact h.alone

theorem read (h : FleetInv task f) {key : NamespacedName} {r : Except ApiError AgentTask}
    (hans : (fleet task).answer f (.getTask key) r f') :
    FleetInv task f' ∧ f'.store.versions = f.store.versions := by
  obtain ⟨hserve, hchange, _, hrunners⟩ := hans
  have hpods : f'.pods = f.pods := hchange
  have hversions : f'.store.versions = f.store.versions := by
    rcases hserve.read with hs | ⟨n, a, _, _, hs⟩
    · rw [hs]
    · rw [hs, Versioned.read_versions]
  have hborn : ∀ pod, Born task f.store pod → Born task f'.store pod :=
    fun pod hb => hb.mono fun a ha => hversions ▸ ha
  refine ⟨⟨h.lifecycle.serve_read hserve, ?_, ?_, ?_, ?_⟩, hversions⟩
  · rw [hversions]
    exact h.attended
  · rw [hpods]
    exact fun pod hpod => hborn pod (h.pods pod hpod)
  · rw [hrunners]
    exact fun x hx => ⟨hborn _ (h.runners x hx).1, (h.runners x hx).2⟩
  · rw [hrunners]
    exact h.alone

theorem unique (h : FleetInv task f) {x y : Runner} (hx : x ∈ f.runners) (hy : y ∈ f.runners)
    (hip : x.ip = y.ip) : x = y :=
  List.inj_on_of_nodup_map h.alone hx hy hip

theorem exposed (h : FleetInv task f) {x : Runner} (hx : x ∈ f.runners) {id : String}
    {status : TaskStatus} (hs : x.process.statuses id = some status) :
    ∃ request, startupRequest x.pod = some request ∧ id = request.taskID ∧
      (Process.Unfinished status ∨ Process.Ended x.token request x.process status) := by
  obtain ⟨_, hreached⟩ := h.runners x hx
  cases hrequest : startupRequest x.pod with
  | none =>
    rw [hrequest] at hreached
    rw [hreached.nothing.1] at hs
    cases hs
  | some request =>
    rw [hrequest] at hreached
    obtain ⟨hid, hstatus⟩ := hreached.inv.exposed id status hs
    exact ⟨request, rfl, hid, hstatus.imp_left And.left⟩

theorem told (h : FleetInv task f) {o : ApiOp} {r : o.Resp}
    (hans : (fleet task).answer f o r f') : Told f' ⟨o, r⟩ := by
  obtain ⟨_, _, hhears, hrunners⟩ := hans
  apply Told.congr _ hrunners
  cases o with
  | getPod key =>
    cases r with
    | ok pod => exact hhears
    | error err => trivial
  | httpGet url =>
    intro hurl s hs
    obtain ⟨x, hx, hip, status, hstatus, rfl⟩ := hhears hurl s hs
    refine ⟨x, hx, hip, ?_⟩
    obtain ⟨request, hrequest, _, hold⟩ := h.exposed hx (Worker.getTaskStatus_eq_ok.mp hstatus)
    obtain ⟨hphase, hpr⟩ := decode_statusReply hs
    exact ⟨request, status, hrequest, hphase, hpr, hold⟩
  | _ => trivial

/-- A worker that has answered a Reconcile on a running task runs in a pod of the attempt. -/
theorem answered (h : FleetInv task f) {t : AgentTask} {pod : Pod}
    {reply : Except String HttpReply} {status : WorkerStatus} {rest : List (Event ApiOp.Resp)}
    (htold : ∀ e ∈ ⟨.getPod t.podKey, .ok pod⟩ ::
      ⟨.httpGet ⟨pod.podIP, t.name, .status⟩, reply⟩ :: rest, Told f e) (hip : pod.podIP ≠ "")
    (hdecode : decodeReply {} WorkerStatus.set reply = .ok status) :
    ∃ x ∈ f.runners, x.pod.name = t.status.workerPod ∧ x.Tells status := by
  obtain ⟨x, hx, hname, hxip⟩ : f.At t.podKey.name pod.podIP :=
    htold _ List.mem_cons_self hip
  obtain ⟨y, hy, hyip, htells⟩ : ∃ y ∈ f.runners, y.ip = pod.podIP ∧ y.Tells status :=
    htold _ (List.mem_cons_of_mem _ List.mem_cons_self) rfl status hdecode
  have hsame := h.unique hx hy (hxip.trans hyip.symm)
  subst hsame
  exact ⟨x, hx, hname, htells⟩

end FleetInv

/-! ## Runs of the operator on a fleet -/

section Runs

variable {W : Type} {env : Environment ApiOp ApiOp.Resp W} {part : W → Fleet}

/-- The world has a fleet in it, which may move on while a call is answered. -/
structure Fleets (task : AgentTask) (env : Environment ApiOp ApiOp.Resp W) (part : W → Fleet) :
    Prop where
  answer {w w' : W} {o : ApiOp} {r : o.Resp} : env.answer w o r w' →
    ∃ f, (fleet task).answer (part w) o r f ∧ Relation.ReflTransGen Fleet.Drift f (part w')
  drift {w w' : W} : env.drift w w' → Relation.ReflTransGen Fleet.Drift (part w) (part w')

theorem drifts_store (h : Relation.ReflTransGen Fleet.Drift f f') : f'.store = f.store := by
  induction h with
  | refl => rfl
  | tail _ hd ih => rw [hd.store_eq, ih]

theorem FleetInv.drifts (hinv : FleetInv task f) (h : Relation.ReflTransGen Fleet.Drift f f') :
    FleetInv task f' := by
  induction h with
  | refl => exact hinv
  | tail _ hd ih => exact ih.drift hd

theorem Told.drifts {e : Event ApiOp.Resp} (htold : Told f e)
    (h : Relation.ReflTransGen Fleet.Drift f f') : Told f' e := by
  induction h with
  | refl => exact htold
  | tail _ hd ih => exact ih.drift hd

theorem Fleets.stores (h : Fleets task env part) : Stores task env fun w => (part w).store := by
  refine ⟨fun hans => ?_, fun hd => drifts_store (h.drift hd)⟩
  obtain ⟨f, hans, hd⟩ := h.answer hans
  rw [drifts_store hd]
  exact hans.1

/-- An invariant of the operator's runs on a fleet: the calls that keep it are justified,
by answers that have told what they say, and of which more may be known. -/
theorem Fleets.invariant_held (h : Fleets task env part) (inv : W → Prop)
    (held : AgentTaskStatus → List (Event ApiOp.Resp) → W → Prop)
    (drift : ∀ w w', FleetInv task (part w) → inv w → env.drift w w' → inv w')
    (drift_held : ∀ a tr w w', held a tr w → env.drift w w' → held a tr w')
    (read : ∀ w r w', FleetInv task (part w) → inv w → env.answer w (.getTask task.key) r w' →
      inv w' ∧ ∀ a, held a [] w')
    (step : ∀ w o r w' a tr, FleetInv task (part w) → inv w → (∀ e ∈ tr, Told (part w) e) →
      held a tr w → (part w).store.versions[(part w).store.seen]? = some a →
      Justified (task.version (part w).store.seen a) tr o → env.answer w o r w' →
      inv w' ∧ held a (tr ++ [⟨o, r⟩]) w')
    {w₀ : W} (hstart : part w₀ = Fleet.start) (h₀ : inv w₀)
    {c : Pool Unit ApiOp ApiOp.Resp Outcome W} (hc : Reachable env task w₀ c) :
    FleetInv task (part c.world) ∧ inv c.world := by
  refine h.stores.invariant_justified (fun w => FleetInv task (part w) ∧ inv w)
    (fun a tr w => (∀ e ∈ tr, Told (part w) e) ∧ held a tr w) ?_ ?_ ?_ ?_ ⟨?_, h₀⟩ hc
  · intro w w' hw hd
    exact ⟨hw.1.drifts (h.drift hd), drift w w' hw.1 hw.2 hd⟩
  · intro a tr w w' hheld hd
    exact ⟨fun e he => (hheld.1 e he).drifts (h.drift hd), drift_held a tr w w' hheld.2 hd⟩
  · intro w r w' hw hans
    obtain ⟨hinv, hheld⟩ := read w r w' hw.1 hw.2 hans
    obtain ⟨f, hans, hd⟩ := h.answer hans
    exact ⟨⟨(hw.1.read hans).1.drifts hd, hinv⟩, fun _ a _ => ⟨fun e he => (by cases he), hheld a⟩⟩
  · intro w o r w' a tr hw hheld ha ho hans
    obtain ⟨hinv, hheld'⟩ := step w o r w' a tr hw.1 hw.2 hheld.1 hheld.2 ha ho hans
    obtain ⟨f, hans, hd⟩ := h.answer hans
    refine ⟨⟨(hw.1.call ha ho.1 hans).drifts hd, hinv⟩, ?_, hheld'⟩
    intro e he
    rcases List.mem_append.mp he with he | he
    · exact ((hheld.1 e he).congr hans.2.2.2).drifts hd
    · rw [List.mem_singleton.mp he]
      exact (hw.1.told hans).drifts hd
  · rw [hstart]
    exact FleetInv.start task

theorem Fleets.invariant (h : Fleets task env part) (inv : W → Prop)
    (drift : ∀ w w', FleetInv task (part w) → inv w → env.drift w w' → inv w')
    (read : ∀ w r w', FleetInv task (part w) → inv w → env.answer w (.getTask task.key) r w' → inv w')
    (step : ∀ w o r w' a tr, FleetInv task (part w) → inv w → (∀ e ∈ tr, Told (part w) e) →
      (part w).store.versions[(part w).store.seen]? = some a →
      Justified (task.version (part w).store.seen a) tr o → env.answer w o r w' → inv w')
    {w₀ : W} (hstart : part w₀ = Fleet.start) (h₀ : inv w₀)
    {c : Pool Unit ApiOp ApiOp.Resp Outcome W} (hc : Reachable env task w₀ c) :
    FleetInv task (part c.world) ∧ inv c.world := by
  refine h.invariant_held inv (fun _ _ _ => True) drift (fun _ _ _ _ _ _ => trivial) ?_ ?_ hstart h₀ hc
  · exact fun w r w' hinv hw hans => ⟨read w r w' hinv hw hans, fun _ => trivial⟩
  · exact fun w o r w' a tr hinv hw htold _ ha ho hans =>
      ⟨step w o r w' a tr hinv hw htold ha ho hans, trivial⟩

end Runs

/-! A fleet in which all calls succeed that can. -/

/-- A Reconcile on a running task whose worker answers. -/
theorem executes_report {W : Type} {env : Environment ApiOp ApiOp.Resp W} {w w₁ w₂ w₃ w' : W}
    {key : NamespacedName} {t : AgentTask} {pod : Pod} {reply : Except String HttpReply}
    {status : WorkerStatus} {tr : List (Event ApiOp.Resp)} {out : Outcome}
    (htask : env.answer w (.getTask key) (.ok t) w₁) (ht : t.status.phase = .running)
    (hpod : env.answer w₁ (.getPod t.podKey) (.ok pod) w₂) (hphase : pod.phase = .running)
    (hip : pod.podIP ≠ "") (hreply : env.answer w₂ (.httpGet ⟨pod.podIP, t.name, .status⟩) reply w₃)
    (hdecode : decodeReply {} WorkerStatus.set reply = .ok status)
    (hrest : Executes env (handleWorkerStatus t pod.podIP status) w₃ tr out w') :
    Executes env (reconcile key) w (⟨.getTask key, .ok t⟩ :: ⟨.getPod t.podKey, .ok pod⟩ ::
      ⟨.httpGet ⟨pod.podIP, t.name, .status⟩, reply⟩ :: tr) out w' := by
  refine .call htask ?_
  change Executes env (dispatch t) w₁ _ out w'
  rw [dispatch_running ht]
  refine .call hpod ?_
  change Executes env (watchPod t (.ok pod)) w₂ _ out w'
  unfold watchPod
  simp only [hphase, if_neg hip]
  refine .call hreply ?_
  dsimp only [Program.bind, pure_eq]
  rw [hdecode]
  exact hrest

namespace Fleet

instance (f : Fleet) (name ip : String) : Decidable (f.At name ip) :=
  inferInstanceAs (Decidable (∃ x ∈ f.runners, x.pod.name = name ∧ x.ip = ip))

/-- What the worker at an IP says of a task. -/
def statusAt (f : Fleet) (url : WorkerURL) : Except String HttpReply :=
  match f.runners.find? fun x => x.ip = url.podIP with
  | none => .error "connection refused"
  | some x =>
    match getTaskStatus x.process.statuses url.taskID with
    | .ok status => statusReply status
    | .error _ => .ok ⟨404, .ok none⟩

def behaviour (f : Fleet) : Behaviour where
  agent := .ok demoAgent
  pod key :=
    match f.pods.find key.name with
    | none => .error ⟨.notFound, "not found"⟩
    | some pod =>
      if pod.podIP = "" ∨ f.At key.name pod.podIP then .ok pod else .error ⟨.other, "timed out"⟩
  created pod :=
    if f.pods.find pod.name = none then .ok () else .error ⟨.alreadyExists, "already exists"⟩
  reply url := if url.endpoint = .status then f.statusAt url else demoReply []
  writes := true

def respond (task : AgentTask) (f : Fleet) : (o : ApiOp) → o.Resp × Fleet
  | .deletePod key =>
    if f.pods.find key.name = none then (.error ⟨.notFound, "not found"⟩, f)
    else (.ok (), { f with pods := f.pods.delete key.name })
  | o => ((f.behaviour.respond task f.store o).1,
      { f with store := (f.behaviour.respond task f.store o).2, pods := f.pods.after o })

theorem behaviour_pod {key : NamespacedName} {pod : Pod} (h : f.behaviour.pod key = .ok pod) :
    pod.name = key.name ∧ (pod.podIP ≠ "" → f.At key.name pod.podIP) := by
  simp only [behaviour] at h
  cases hfind : f.pods.find key.name with
  | none =>
    rw [hfind] at h
    cases h
  | some other =>
    simp only [hfind] at h
    split at h
    · rename_i hat
      cases h
      exact ⟨by simpa using List.find?_some hfind, hat.resolve_left⟩
    · cases h

theorem statusAt_eq {url : WorkerURL} {status : TaskStatus}
    (h : ((f.runners.find? fun x => x.ip = url.podIP).bind fun x =>
      x.process.statuses url.taskID) = some status) : f.statusAt url = statusReply status := by
  obtain ⟨x, hx, hstatus⟩ := Option.bind_eq_some_iff.mp h
  simp only [statusAt, getTaskStatus, hx, hstatus]

theorem respond_status {url : WorkerURL} {status : TaskStatus} (hurl : url.endpoint = .status)
    (h : ((f.runners.find? fun x => x.ip = url.podIP).bind fun x =>
      x.process.statuses url.taskID) = some status) :
    (f.respond task (.httpGet url)).1 = statusReply status :=
  (if_pos hurl).trans (statusAt_eq h)

theorem statusAt_hears {url : WorkerURL} {s : WorkerStatus}
    (h : decodeReply {} WorkerStatus.set (f.statusAt url) = .ok s) : ∃ x ∈ f.runners,
      x.ip = url.podIP ∧ ∃ status, getTaskStatus x.process.statuses url.taskID = .ok status ∧
        f.statusAt url = statusReply status := by
  unfold statusAt at *
  cases hfind : f.runners.find? fun x => x.ip = url.podIP with
  | none =>
    rw [hfind] at h
    cases h
  | some x =>
    have hip := List.find?_some hfind
    refine ⟨x, List.mem_of_find?_eq_some hfind, by simpa using hip, ?_⟩
    cases hstatus : getTaskStatus x.process.statuses url.taskID with
    | ok status => exact ⟨status, rfl, by simp only [hstatus]⟩
    | error err =>
      simp only [hfind, hstatus] at h
      cases h

theorem answer_respond (task : AgentTask) (f : Fleet) (o : ApiOp) :
    (fleet task).answer f o (f.respond task o).1 (f.respond task o).2 := by
  have hserve := f.behaviour.serve_respond task f.store o
  have hchange : (∀ key, o ≠ .deletePod key) →
      f.pods.Change o (f.behaviour.respond task f.store o).1 (f.pods.after o) :=
    Pods.change_after (fun _ _ h => (behaviour_pod h).1) fun _ => rfl
  cases o with
  | deletePod key =>
    by_cases hfind : f.pods.find key.name = none
    · simp only [respond, if_pos hfind]
      exact ⟨rfl, Or.inl rfl, trivial, rfl⟩
    · simp only [respond, if_neg hfind]
      exact ⟨rfl, ⟨hfind, rfl⟩, trivial, rfl⟩
  | getPod key =>
    refine ⟨hserve, hchange (by simp), ?_, rfl⟩
    change f.Hears (.getPod key) (f.behaviour.pod key)
    cases hpod : f.behaviour.pod key with
    | error err => trivial
    | ok pod => exact (behaviour_pod hpod).2
  | httpGet url =>
    refine ⟨hserve, hchange (by simp), ?_, rfl⟩
    intro hstatus s hs
    have hreply : f.behaviour.reply url = f.statusAt url := if_pos hstatus
    change decodeReply {} WorkerStatus.set (f.behaviour.reply url) = .ok s at hs
    change ∃ x ∈ f.runners, x.ip = url.podIP ∧ ∃ status, _ ∧ f.behaviour.reply url = _
    rw [hreply] at hs ⊢
    exact statusAt_hears hs
  | _ => exact ⟨hserve, hchange (by simp), trivial, rfl⟩

theorem respond_runners (task : AgentTask) (f : Fleet) (o : ApiOp) :
    (f.respond task o).2.runners = f.runners :=
  (answer_respond task f o).2.2.2

/-- The pod of this name is reported to run at this IP, and its worker is started. -/
def up (f : Fleet) (name ip : String) : Fleet :=
  let pods := f.pods.report name .running ip
  match pods.find name with
  | none => { f with pods := pods }
  | some pod => { f with
      pods := pods
      runners := f.runners ++ [⟨pod, ip, "token", .boot "token" (startupRequest pod)⟩] }

theorem up_eq {name ip : String} {pod : Pod} {request : Option Worker.TaskRequest}
    (hpod : (f.pods.report name .running ip).find name = some pod)
    (hrequest : startupRequest pod = request) :
    f.up name ip = { f with
      pods := f.pods.report name .running ip
      runners := f.runners ++ [⟨pod, ip, "token", .boot "token" request⟩] } := by
  rw [← hrequest]
  unfold up
  dsimp only
  rw [hpod]

/-- The worker started last comes to its end. -/
def finished (answer : (o : Worker.WorkerOp) → o.Resp) (f : Fleet) : Fleet :=
  match f.runners.getLast? with
  | none => f
  | some x => { f with
      runners := f.runners.dropLast ++ [{ x with process := x.process.complete answer }] }

/-- It moves on, and a worker whose run is over is left alone. -/
def Proceeds (f f' : Fleet) : Prop :=
  f.Drift f' ∧ ∀ x ∈ f.runners, x.process.running = none → x ∈ f'.runners

theorem up_proceeds {name ip : String} (hip : ∀ x ∈ f.runners, x.ip ≠ ip) :
    Relation.ReflTransGen Proceeds f (f.up name ip) := by
  have hreport : f.Proceeds { f with pods := f.pods.report name .running ip } :=
    ⟨.pods (.report f.pods name .running ip), fun _ hx _ => hx⟩
  unfold up
  dsimp only
  split
  · exact .single hreport
  · rename_i hfind
    exact .tail (.single hreport) ⟨.boot hfind hip, fun _ hx _ => List.mem_append_left _ hx⟩

theorem up_drifts {name ip : String} (hip : ∀ x ∈ f.runners, x.ip ≠ ip) :
    Relation.ReflTransGen Drift f (f.up name ip) :=
  Relation.ReflTransGen.mono (fun _ _ h => h.1) _ _ (up_proceeds hip)

theorem works {before after : List Runner} {x : Runner} {process : Process}
    (hrunners : f.runners = before ++ x :: after)
    (hsteps : Relation.ReflTransGen Process.Step x.process process) :
    Relation.ReflTransGen Drift f
      { f with runners := before ++ { x with process := process } :: after } := by
  induction hsteps with
  | refl => rw [← hrunners]
  | @tail process _ _ hstep ih =>
    exact ih.tail (.work (f := { f with runners := _ }) (x := { x with process := process }) rfl hstep)

theorem works_proceeds {before after : List Runner} {x : Runner} {process : Process}
    (hrunners : f.runners = before ++ x :: after)
    (hsteps : Relation.ReflTransGen Process.Works x.process process) :
    Relation.ReflTransGen Proceeds f
      { f with runners := before ++ { x with process := process } :: after } := by
  induction hsteps with
  | refl => rw [← hrunners]
  | @tail process _ _ hstep ih =>
    refine ih.tail ⟨.work (f := { f with runners := _ }) (x := { x with process := process }) rfl
      hstep.2, ?_⟩
    intro y hy hidle
    rcases List.mem_append.mp hy with hy | hy
    · exact List.mem_append_left _ hy
    · rcases List.mem_cons.mp hy with rfl | hy
      · exact absurd hidle hstep.1
      · exact List.mem_append_right _ (List.mem_cons_of_mem _ hy)

theorem finished_proceeds (answer : (o : Worker.WorkerOp) → o.Resp) (f : Fleet) :
    Relation.ReflTransGen Proceeds f (f.finished answer) := by
  unfold finished
  split
  · exact .refl
  · rename_i x hlast
    apply works_proceeds
    · exact (List.dropLast_append_getLast? x hlast).symm
    · exact x.process.complete_works answer

theorem finished_drifts (answer : (o : Worker.WorkerOp) → o.Resp) (f : Fleet) :
    Relation.ReflTransGen Drift f (f.finished answer) :=
  Relation.ReflTransGen.mono (fun _ _ h => h.1) _ _ (finished_proceeds answer f)

end Fleet

/-- The small task, for which its worker starts. -/
def skilledTask : AgentTask := { demoTask with spec := { demoTask.spec with skills := some ["python"] } }

end BulletFarm.System
