import BulletFarm.System.Fleet
import BulletFarm.Worker.Flush

/-!
# What a running task becomes

A task is completed on the word of its worker, or when its pod has succeeded. The server
of the worker does not end with its run: a pod has also succeeded when its worker was
told to stop in the middle. Where that is not seen, a task succeeds with its worker only.
-/

namespace BulletFarm.System

open Interaction Program Operator
open Worker (Process TaskPhase TaskStatus startupRequest)

set_option autoImplicit false

variable {task : AgentTask} {f f' : Fleet}

/-- Its run has ended with the phase Succeeded. -/
def Runner.Succeeded (x : Runner) : Prop :=
  ∃ request status, startupRequest x.pod = some request ∧
    Process.Ended x.token request x.process status ∧ status.phase = .succeeded

/-- A worker has succeeded in a pod of this name. -/
def Fleet.Succeeded (f : Fleet) (name : String) : Prop :=
  ∃ x ∈ f.runners, x.pod.name = name ∧ x.Succeeded

theorem Runner.Succeeded.later {x x' : Runner} (h : x.Succeeded) (hlater : x.Later x') :
    x'.Succeeded := by
  obtain ⟨request, status, hrequest, hended, hphase⟩ := h
  refine ⟨request, status, by rw [hlater.pod]; exact hrequest, ?_, hphase⟩
  rw [hlater.token]
  exact hended.later hlater.process

theorem Fleet.Succeeded.drift {name : String} (h : f.Succeeded name) (hd : f.Drift f') :
    f'.Succeeded name := by
  obtain ⟨x, hx, rfl, hsucceeded⟩ := h
  obtain ⟨x', hx', hlater⟩ := hd.later hx
  exact ⟨x', hx', by rw [hlater.pod], hsucceeded.later hlater⟩

theorem Fleet.Succeeded.congr {name : String} (h : f.Succeeded name)
    (hrunners : f'.runners = f.runners) : f'.Succeeded name := by
  unfold Fleet.Succeeded
  rw [hrunners]
  exact h

/-- Whatever the next Reconcile writes over this status starts another attempt. -/
def Retried (task : AgentTask) (b : AgentTaskStatus) : Prop :=
  ∀ n b', MayWrite (task.version n b) b' → b'.phase = .pending ∧ b'.retryCount = b.retryCount + 1

/-- A task that ran has succeeded with its worker, or may try again. -/
def Resolves (task : AgentTask) (f : Fleet) (a b : AgentTaskStatus) : Prop :=
  (b.phase ∈ [Phase.completed, .waitingForPR] ∧ b.completedAt ≠ none ∧ b.progress = 100 ∧
    f.Succeeded (attemptPod task a)) ∨
  b.phase = .failed ∧ b.retryCount = a.retryCount ∧
    (a.retryCount < maxRetries task.spec → Retried task b)

theorem retried_of_failed {b : AgentTaskStatus} (hfailed : b.phase = .failed)
    (hlt : b.retryCount < maxRetries task.spec) : Retried task b := by
  intro n b' h
  simp only [MayWrite, version_status, hfailed] at h
  rcases h with ⟨_, message, rfl⟩ | ⟨hge, _⟩
  · exact ⟨rfl, rfl⟩
  · change maxRetries task.spec ≤ b.retryCount at hge
    omega

theorem resolves_of_failed {a b : AgentTaskStatus} (hfailed : b.phase = .failed)
    (hretry : b.retryCount = a.retryCount) : Resolves task f a b :=
  Or.inr ⟨hfailed, hretry, fun hlt => retried_of_failed hfailed (hretry ▸ hlt)⟩

theorem Resolves.mono {a b : AgentTaskStatus} (h : Resolves task f a b)
    (hf : f.Succeeded (attemptPod task a) → f'.Succeeded (attemptPod task a)) :
    Resolves task f' a b :=
  h.imp_left fun ⟨hphase, hcompleted, hprogress, hsucceeded⟩ =>
    ⟨hphase, hcompleted, hprogress, hf hsucceeded⟩

/-! ## One write -/

/-- The operator sees that a pod of the running task has succeeded only if its worker has. -/
def EndsInEarnest (f : Fleet) : (o : ApiOp) → o.Resp → Fleet → Prop
  | .getPod key, .ok pod, _ => f.store.Accepts f.store.seen → f.store.current.phase = .running →
    pod.phase = .succeeded → f.Succeeded key.name
  | _, _, _ => True

/-- What such an answer has established, as long as nothing is written. -/
def Earnest (f : Fleet) : Event ApiOp.Resp → Prop
  | ⟨.getPod key, .ok pod⟩ => f.store.Accepts f.store.seen → f.store.current.phase = .running →
    pod.phase = .succeeded → f.Succeeded key.name
  | _ => True

theorem Earnest.mono {e : Event ApiOp.Resp} (h : Earnest f e)
    (haccepts : f'.store.Accepts f'.store.seen →
      f.store.Accepts f.store.seen ∧ f.store.current = f'.store.current)
    (hsucceeded : ∀ name, f.Succeeded name → f'.Succeeded name) : Earnest f' e := by
  obtain ⟨o, r⟩ := e
  cases o with
  | getPod key =>
    cases r with
    | ok pod =>
      intro hacc hrunning hphase
      obtain ⟨hacc', hcurrent⟩ := haccepts hacc
      exact hsucceeded _ (h hacc' (hcurrent ▸ hrunning) hphase)
    | error err => trivial
  | _ => trivial

theorem EndsInEarnest.earnest {o : ApiOp} {r : o.Resp} (h : EndsInEarnest f o r f') :
    Earnest f ⟨o, r⟩ := by
  cases o with
  | getPod key =>
    cases r with
    | ok pod => exact h
    | error err => trivial
  | _ => trivial

theorem Runner.Tells.succeeded {x : Runner} {s : WorkerStatus} (h : x.Tells s)
    (hs : s.phase = "Succeeded" ∨ s.phase = "Completed") : x.Succeeded := by
  obtain ⟨request, status, hrequest, hphase, _, hstatus⟩ := h
  have hvalue : status.phase = .succeeded := by
    rw [hphase] at hs
    cases hp : status.phase <;> simp [hp, TaskPhase.value] at hs ⊢
  rcases hstatus with hunfinished | hended
  · rw [hunfinished.phase] at hvalue
    cases hvalue
  · exact ⟨request, status, hrequest, hended, hvalue⟩

/-- The write by which a task leaves Running. -/
theorem FleetInv.resolves (h : FleetInv task f) {n : Nat} {a b : AgentTaskStatus}
    (ha : a ∈ f.store.versions) (hrunning : a.phase = .running) {tr : List (Event ApiOp.Resp)}
    (hwrite : RunningWrite (task.version n a) tr b) (htold : ∀ e ∈ tr, Told f e)
    (hearnest : ∀ e ∈ tr, Earnest f e) (hacc : f.store.Accepts f.store.seen)
    (hcurrent : f.store.current = a) (hleaves : b.phase ≠ .running) : Resolves task f a b := by
  have hpod : a.workerPod = attemptPod task a := h.attended a ha (by simp [hrunning])
  cases hwrite with
  | disappeared _ => exact resolves_of_failed rfl rfl
  | podFailed _ => exact resolves_of_failed rfl rfl
  | @podSucceeded pod time hphase =>
    have hsucceeded : f.Succeeded a.workerPod :=
      hearnest _ List.mem_cons_self hacc (hcurrent ▸ hrunning) hphase
    exact Or.inl ⟨by simp, by simp, rfl, hpod ▸ hsucceeded⟩
  | @answered pod reply status rest _ _ hip hdecode hreported =>
    obtain ⟨x, hx, hname, htells⟩ := h.answered htold hip hdecode
    cases hreported with
    | succeeded hs =>
      exact Or.inl ⟨by simp, by simp, rfl, x, hx, hname.trans hpod, htells.succeeded hs⟩
    | incomplete _ => exact resolves_of_failed rfl rfl
    | failed _ => exact resolves_of_failed rfl rfl
    | unfinished _ => exact absurd hrunning hleaves

/-! ## Every run -/

/-- Every time the task left Running it succeeded with its worker, or may try again. -/
def Resolved (task : AgentTask) (f : Fleet) : Prop :=
  f.store.Moves fun a b => a.phase = .running → b.phase ≠ .running → Resolves task f a b

theorem Resolved.mono (h : Resolved task f) (hversions : f'.store.versions = f.store.versions)
    (hsucceeded : ∀ name, f.Succeeded name → f'.Succeeded name) : Resolved task f' := by
  intro n a b ha hb hrunning hleaves
  rw [hversions] at ha hb
  exact (h n a b ha hb hrunning hleaves).mono (hsucceeded _)

theorem Resolved.call (h : Resolved task f) (hinv : FleetInv task f) {a : AgentTaskStatus}
    {tr : List (Event ApiOp.Resp)} {o : ApiOp} {r : o.Resp}
    (ha : f.store.versions[f.store.seen]? = some a) (htold : ∀ e ∈ tr, Told f e)
    (hearnest : ∀ e ∈ tr, Earnest f e) (ho : Justified (task.version f.store.seen a) tr o)
    (hans : (fleet task).answer f o r f') : Resolved task f' := by
  obtain ⟨hserve, _, _, hrunners⟩ := hans
  have hsucceeded : ∀ name, f.Succeeded name → f'.Succeeded name := fun _ h => h.congr hrunners
  rcases hserve.cases ha ho.1 with hsame | ⟨b, rfl, hacc, hcurrent, _, hstore⟩
  · exact h.mono (by rw [hsame]) hsucceeded
  · have hmoves : f.store.Moves fun a b =>
        a.phase = .running → b.phase ≠ .running → Resolves task f' a b := by
      intro n x y hx hy hrunning hleaves
      exact (h n x y hx hy hrunning hleaves).mono (hsucceeded _)
    unfold Resolved
    rw [hstore]
    apply hmoves.write
    intro hrunning hleaves
    rw [hcurrent] at hrunning ⊢
    obtain ⟨s', hs', hreason⟩ := ho.running hrunning
    have hb : b = s' := congrArg AgentTask.status hs'
    rw [← hb] at hreason
    exact (hinv.resolves (List.mem_of_getElem? ha) hrunning hreason htold hearnest hacc hcurrent
      hleaves).mono (hsucceeded _)

/-- The versions a Reconcile holds on to are still there after its calls. -/
theorem accepts_before {s s' : Versioned AgentTaskStatus} {a : AgentTaskStatus} {o : ApiOp}
    {r : o.Resp} (hserve : Serve task s o r s') (ha : s.versions[s.seen]? = some a)
    (ho : MayCall true (task.version s.seen a) o) (hacc : s'.Accepts s'.seen) :
    s.Accepts s.seen ∧ s.current = s'.current := by
  have hgrows := (hserve.grows ha ho).length_le
  obtain ⟨hseen, ha'⟩ := hserve.keeps_version ha ho
  have hlt := (List.getElem?_eq_some_iff.mp ha).1
  have hbefore : s.Accepts s.seen := by
    unfold Versioned.Accepts at *
    omega
  exact ⟨hbefore, (hbefore.current ha).trans (hacc.current (hseen ▸ ha')).symm⟩

theorem fleets_earnest (task : AgentTask) :
    Fleets task ((fleet task).restrict EndsInEarnest) id :=
  ⟨fun hans => ⟨_, hans.1, .refl⟩, .single⟩

/-- If the operator sees that a pod of the running task has succeeded only when its worker
has, a task leaves Running to succeed only with the worker of its attempt, and else fails
and may try again. -/
theorem success_with_worker {c : Pool Unit ApiOp ApiOp.Resp Outcome Fleet}
    (hc : Reachable ((fleet task).restrict EndsInEarnest) task Fleet.start c) {n : Nat}
    {a b : AgentTaskStatus} (ha : c.world.store.versions[n]? = some a)
    (hb : c.world.store.versions[n + 1]? = some b) (hrunning : a.phase = .running)
    (hleaves : b.phase ≠ .running) : Resolves task c.world a b := by
  have hresolved : FleetInv task c.world ∧ Resolved task c.world := by
    refine (fleets_earnest task).invariant_held (Resolved task)
      (fun _ tr f => ∀ e ∈ tr, Earnest f e) ?_ ?_ ?_ ?_ rfl ?_ hc
    · intro f f' _ h hd
      exact h.mono (by rw [hd.store_eq]) fun _ hs => hs.drift hd
    · intro _ tr f f' h hd e he
      refine (h e he).mono ?_ fun _ hs => hs.drift hd
      rw [hd.store_eq]
      exact fun hacc => ⟨hacc, rfl⟩
    · intro f r f' hinv h hans
      refine ⟨h.mono (hinv.read hans.1).2 fun _ hs => hs.congr hans.1.2.2.2, ?_⟩
      intro _ e he
      cases he
    · intro f o r f' a tr hinv h htold hearnest ha ho hans
      refine ⟨h.call hinv ha htold hearnest ho hans.1, ?_⟩
      have hbefore := accepts_before hans.1.1 ha ho.1
      have hruns : ∀ name, f.Succeeded name → f'.Succeeded name :=
        fun _ hs => hs.congr hans.1.2.2.2
      intro e he
      rcases List.mem_append.mp he with he | he
      · exact (hearnest e he).mono hbefore hruns
      · rw [List.mem_singleton.mp he]
        exact hans.2.earnest.mono hbefore hruns
    · intro n a b _ hb
      simp at hb
  exact hresolved.2 n a b ha hb hrunning hleaves

/-! ## A worker that is stopped in the middle -/

def completionStep (f : Fleet) : Fleet :=
  (play (Fleet.respond skilledTask) (reconcile skilledTask.key) f).2.2

/-- The worker has started on the task. -/
def workerUp : Fleet := (completionStep (completionStep Fleet.start)).up "worker-t" "10.0.0.1"

/-- The version the pod of the worker is made for. -/
def startedTask : AgentTask := skilledTask.version 1 (completionStep Fleet.start).store.current

def startedPod : Pod := { podFor startedTask demoAgent with phase := .running, podIP := "10.0.0.1" }

/-- The worker is started with what its payload says. -/
def workerStarted : Fleet :=
  let f := completionStep (completionStep Fleet.start)
  { f with
    pods := f.pods.report "worker-t" .running "10.0.0.1"
    runners := f.runners ++ [⟨startedPod, "10.0.0.1", "token",
      .boot "token" (some (Worker.requestOf (taskPayload startedTask demoAgent)))⟩] }

theorem workerUp_eq : workerUp = workerStarted :=
  Fleet.up_eq rfl ((Worker.startupRequest_podFor startedTask demoAgent).trans rfl)

/-- Its pod has come to an end with exit code 0. -/
def podEnded (f : Fleet) : Fleet :=
  { f with pods := f.pods.report "worker-t" .succeeded "10.0.0.1" }

theorem podEnded_drift (f : Fleet) : f.Drift (podEnded f) :=
  .pods (.report f.pods "worker-t" .succeeded "10.0.0.1")

theorem workerUp_drifts :
    Relation.ReflTransGen Fleet.Drift (completionStep (completionStep Fleet.start)) workerUp :=
  Fleet.up_drifts (by decide +kernel)

theorem completionStep_executes (f : Fleet) : ∃ tr out,
    Executes (fleet skilledTask) (reconcile skilledTask.key) f tr out (completionStep f) :=
  ⟨_, _, Executes.of_play (Fleet.answer_respond skilledTask) _ _⟩

/-- The pod ends while its worker is still at work: the task is complete, and is closed next. -/
theorem completed_without_worker :
    let f := completionStep (podEnded workerUp)
    Reachable (fleet skilledTask) skilledTask Fleet.start (Pool.idle f) ∧
      (∃ n a b, f.store.versions[n]? = some a ∧ f.store.versions[n + 1]? = some b ∧
        a.phase = .running ∧ b.phase = .completed ∧ ¬ Resolves skilledTask f a b) ∧
      (completionStep f).store.current.phase = .closed := by
  intro f
  have hstep : ∀ {g}, Reachable (fleet skilledTask) skilledTask Fleet.start (Pool.idle g) →
      Reachable (fleet skilledTask) skilledTask Fleet.start (Pool.idle (completionStep g)) := by
    intro g h
    obtain ⟨tr, out, hrun⟩ := completionStep_executes g
    exact h.execute (i := ()) hrun
  have hup := (hstep (hstep .refl)).drifts workerUp_drifts
  have hrun : (f.store.versions[2]?).map AgentTaskStatus.phase = some .running ∧
      (f.store.versions[3]?).map AgentTaskStatus.phase = some .completed ∧
      ∀ x ∈ f.runners, x.process.running.isSome := by
    decide +kernel
  obtain ⟨hbefore, hafter, hworking⟩ := hrun
  obtain ⟨a, ha, hrunning⟩ := Option.map_eq_some_iff.mp hbefore
  obtain ⟨b, hb, hcompleted⟩ := Option.map_eq_some_iff.mp hafter
  refine ⟨hstep (hup.drift (podEnded_drift workerUp)), ⟨2, a, b, ha, hb, hrunning, hcompleted, ?_⟩,
    by decide +kernel⟩
  rintro (⟨_, _, _, x, hx, _, request, status, _, hended, _⟩ | ⟨hfailed, _⟩)
  · have hsome := hworking x hx
    rw [hended.1] at hsome
    cases hsome
  · rw [hcompleted] at hfailed
    cases hfailed

/-- The worker has succeeded before its pod ends. -/
def workerDone : Fleet := podEnded (workerUp.finished (Worker.demoAnswers 0))

def ReadsPods (ok : NamespacedName → Pod → Bool) : Fleet → (o : ApiOp) → o.Resp → Fleet → Prop
  | _, .getPod key, .ok pod, _ => ok key pod = true
  | _, _, _, _ => True

instance (ok : NamespacedName → Pod → Bool) (f : Fleet) (o : ApiOp) (r : o.Resp) (f' : Fleet) :
    Decidable (ReadsPods ok f o r f') :=
  match o, r with
  | .getPod key, .ok pod => inferInstanceAs (Decidable (ok key pod = true))
  | .getPod _, .error _ | .getTask _, _ | .updateTaskStatus _, _ | .getAgent _, _
  | .listTasks _, _ | .setControllerReference _ _, _ | .createPod _, _ | .deletePod _, _
  | .updateAgentStatus _, _ | .httpGet _, _ | .httpPost _, _ | .now, _ => isTrue trivial

theorem completionStep_earnest {f : Fleet} {ok : NamespacedName → Pod → Bool}
    (hreads : PlaysWithin (ReadsPods ok) (Fleet.respond skilledTask) (reconcile skilledTask.key) f)
    (hok : ∀ key pod, ok key pod = true → pod.phase = .succeeded → f.Succeeded key.name) :
    ∃ tr out, Executes ((fleet skilledTask).restrict EndsInEarnest) (reconcile skilledTask.key) f tr
      out (completionStep f) := by
  refine ⟨_, _, Executes.of_play_restrict (Fleet.answer_respond skilledTask) ?_⟩
  refine hreads.of_keeps (fun g => g.runners = f.runners) rfl ?_ ?_
  · intro g o hg
    rw [Fleet.respond_runners, hg]
  · intro g o r g' hg h
    cases o with
    | getPod key =>
      cases r with
      | ok pod => exact fun _ _ hphase => (hok key pod h hphase).congr hg
      | error err => trivial
    | _ => trivial

theorem workerDone_reachable : Reachable ((fleet skilledTask).restrict EndsInEarnest) skilledTask
    Fleet.start (Pool.idle workerDone) := by
  have hstep : ∀ f, PlaysWithin (ReadsPods fun _ pod => pod.phase ≠ .succeeded)
      (Fleet.respond skilledTask) (reconcile skilledTask.key) f → ∃ tr out,
      Executes ((fleet skilledTask).restrict EndsInEarnest) (reconcile skilledTask.key) f tr out
        (completionStep f) := by
    intro f h
    apply completionStep_earnest h
    intro key pod hok hphase
    simp [hphase] at hok
  obtain ⟨_, _, hfirst⟩ := hstep Fleet.start (by decide)
  obtain ⟨_, _, hsecond⟩ := hstep (completionStep Fleet.start) (by decide)
  have hdone : Relation.ReflTransGen Fleet.Drift (completionStep (completionStep Fleet.start)) workerDone :=
    (workerUp_drifts.trans (Fleet.finished_drifts _ _)).tail (podEnded_drift _)
  exact ((Pool.Reachable.execute (i := ()) .refl hfirst).execute (i := ()) hsecond).drifts hdone

theorem workerDone_succeeded : workerDone.Succeeded "worker-t" := by
  have hstatus : ∃ x ∈ workerDone.runners, x.pod.name = "worker-t" ∧
      (x.process.statuses "t").map TaskStatus.phase = some .succeeded := by
    rw [workerDone, workerUp_eq]
    decide +kernel
  obtain ⟨x, hx, hname, hstatus⟩ := hstatus
  obtain ⟨status, hexposed, hphase⟩ := Option.map_eq_some_iff.mp hstatus
  have hinv := ((fleets_earnest skilledTask).invariant (fun _ => True) (fun _ _ _ _ _ => trivial)
    (fun _ _ _ _ _ _ => trivial) (fun _ _ _ _ _ _ _ _ _ _ _ _ => trivial) rfl trivial
    workerDone_reachable).1
  obtain ⟨request, hrequest, _, hunfinished | hended⟩ := hinv.exposed hx hexposed
  · rw [hunfinished.phase] at hphase
    cases hphase
  · exact ⟨x, hx, hname, request, status, hrequest, hended, hphase⟩

/-- The pod of a worker that has succeeded ends before the operator has asked it. -/
theorem success_with_worker_demo :
    ∃ a b, (completionStep workerDone).store.versions[2]? = some a ∧ a.phase = .running ∧
      (completionStep workerDone).store.versions[3]? = some b ∧ b.phase = .completed ∧
      Resolves skilledTask (completionStep workerDone) a b := by
  have hrun : PlaysWithin (ReadsPods fun key _ => key.name = "worker-t") (Fleet.respond skilledTask)
        (reconcile skilledTask.key) workerDone ∧
      ((completionStep workerDone).store.versions[2]?).map AgentTaskStatus.phase = some .running ∧
      ((completionStep workerDone).store.versions[3]?).map AgentTaskStatus.phase = some .completed := by
    decide +kernel
  obtain ⟨hreads, hbefore, hafter⟩ := hrun
  obtain ⟨_, _, hlast⟩ := completionStep_earnest hreads fun key pod hok _ => by
    rw [of_decide_eq_true hok]
    exact workerDone_succeeded
  obtain ⟨a, ha, hrunning⟩ := Option.map_eq_some_iff.mp hbefore
  obtain ⟨b, hb, hcompleted⟩ := Option.map_eq_some_iff.mp hafter
  refine ⟨a, b, ha, hrunning, hb, hcompleted, ?_⟩
  exact success_with_worker (workerDone_reachable.execute (i := ()) hlast) ha hb hrunning
    (by rw [hcompleted]; decide)

end BulletFarm.System
