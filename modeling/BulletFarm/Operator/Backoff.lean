import BulletFarm.Operator.Namespace

/-!
# The pause before a retry

A clock beside the operator's world, with the times of the resets to Pending and of the
requests for pods. The pause exists only as a delay asked of the work queue; the status
write of the reset starts a Reconcile of its own, which waits for nothing.
-/

namespace BulletFarm.Operator

open Interaction

set_option autoImplicit false

variable {W : Type} {task : AgentTask} {env : Environment ApiOp ApiOp.Resp W}
  {store : W → Versioned AgentTaskStatus}

/-- The clock in nanoseconds, the resets with their retry count, and the pods asked for. -/
structure Timeline where
  clock : Duration
  resets : List (Int × Duration)
  asked : List (Pod × Duration)
deriving DecidableEq

namespace Timeline

def start : Timeline := ⟨0, [], []⟩

/-- A call takes no time; the status before and after it tells a reset. -/
def after (l : Timeline) (s s' : AgentTaskStatus) (o : ApiOp) : Timeline where
  clock := l.clock
  resets :=
    if s.phase = .failed ∧ s'.phase = .pending then l.resets ++ [(s'.retryCount, l.clock)]
    else l.resets
  asked :=
    match o with
    | .createPod pod => l.asked ++ [(pod, l.clock)]
    | _ => l.asked

/-- What the operator is told when it asks for the time. -/
def Tells (l : Timeline) : (o : ApiOp) → o.Resp → Prop
  | .now, time => time = l.clock / second
  | _, _ => True

end Timeline

/-- An environment in time: between two calls any time may pass. -/
def timed (env : Environment ApiOp ApiOp.Resp W) (store : W → Versioned AgentTaskStatus) :
    Environment ApiOp ApiOp.Resp (W × Timeline) where
  answer w o r w' := env.answer w.1 o r w'.1 ∧ w.2.Tells o r ∧
    w'.2 = w.2.after (store w.1).current (store w'.1).current o
  drift w w' := env.drift w.1 w'.1 ∧ w'.2 = w.2 ∨
    w'.1 = w.1 ∧ ∃ t, w.2.clock ≤ t ∧ w'.2 = { w.2 with clock := t }

/-- No read gives a task that is Pending for its retry `k` earlier than `30s * k` after
the reset. -/
def Patient (w : W × Timeline) : (o : ApiOp) → o.Resp → W × Timeline → Prop
  | .getTask _, .ok t, _ => t.status.phase = .pending → 1 ≤ t.status.retryCount →
    ∀ reset ∈ w.2.resets, reset.1 = t.status.retryCount →
      reset.2 + retryBackoff * reset.1 ≤ w.2.clock
  | _, _, _ => True

instance (w : W × Timeline) (o : ApiOp) (r : o.Resp) (w' : W × Timeline) :
    Decidable (Patient w o r w') :=
  match o, r with
  | .getTask _, .ok t => inferInstanceAs (Decidable (t.status.phase = .pending →
      1 ≤ t.status.retryCount → ∀ reset ∈ w.2.resets, reset.1 = t.status.retryCount →
        reset.2 + retryBackoff * reset.1 ≤ w.2.clock))
  | .getTask _, .error _ | .getAgent _, _ | .getPod _, _ | .listTasks _, _
  | .setControllerReference _ _, _ | .createPod _, _ | .deletePod _, _ | .updateTaskStatus _, _
  | .updateAgentStatus _, _ | .httpGet _, _ | .httpPost _, _ | .now, _ => isTrue trivial

/-- No pod of a retry `k` is asked for earlier than `30s * k` after its reset. -/
def Paused (task : AgentTask) (l : Timeline) : Prop :=
  ∀ request ∈ l.asked, ∀ reset ∈ l.resets, 1 ≤ reset.1 →
    request.1.name = workerPodName task.name reset.1 →
      reset.2 + retryBackoff * reset.1 ≤ request.2

instance (task : AgentTask) (l : Timeline) : Decidable (Paused task l) :=
  inferInstanceAs (Decidable (∀ request ∈ l.asked, ∀ reset ∈ l.resets, _))

/-! ## The invariant -/

/-- The pods asked for belong to attempts up to the current one. -/
structure BackoffInv (task : AgentTask) (s : Versioned AgentTaskStatus) (l : Timeline) : Prop where
  lifecycle : TaskInv task.spec s
  named : ∀ request ∈ l.asked, ∃ k, 0 ≤ k ∧ k ≤ s.current.retryCount ∧
    request.1.name = workerPodName task.name k
  paused : Paused task l

/-- A task held as Pending for a retry has had its pause. -/
def HadPause (l : Timeline) (a : AgentTaskStatus) : Prop :=
  a.phase = .pending → 1 ≤ a.retryCount → ∀ reset ∈ l.resets, reset.1 = a.retryCount →
    reset.2 + retryBackoff * reset.1 ≤ l.clock

section Calls
variable {s s' : Versioned AgentTaskStatus} {l : Timeline} {a b : AgentTaskStatus}

theorem BackoffInv.unchanged (h : BackoffInv task s l) (htask : TaskInv task.spec s')
    (hcurrent : s'.current = s.current) {o : ApiOp} (ho : ∀ pod, o ≠ .createPod pod) :
    BackoffInv task s' (l.after s.current s'.current o) ∧
      (HadPause l a → HadPause (l.after s.current s'.current o) a) := by
  have hafter : l.after s.current s'.current o = l := by
    have hresets : ¬ (s.current.phase = .failed ∧ s'.current.phase = .pending) := by
      rw [hcurrent]
      rintro ⟨hfailed, hpending⟩
      rw [hfailed] at hpending
      cases hpending
    unfold Timeline.after
    rw [if_neg hresets]
    cases o with
    | createPod pod => exact absurd rfl (ho pod)
    | _ => rfl
  rw [hafter]
  refine ⟨⟨htask, ?_, h.paused⟩, id⟩
  rw [hcurrent]
  exact h.named

theorem BackoffInv.ask (h : BackoffInv task s l) (ha : s.versions[s.seen]? = some a)
    (hheld : HadPause l a) {agent : Agent} (hpending : a.phase = .pending) :
    BackoffInv task s
        (l.after s.current s.current (.createPod (podFor (task.version s.seen a) agent))) ∧
      HadPause (l.after s.current s.current (.createPod (podFor (task.version s.seen a) agent))) a := by
  have hseen : s.seen ≤ s.latest := by
    have hlt := (List.getElem?_eq_some_iff.mp ha).1
    unfold Versioned.latest
    omega
  have hle := h.lifecycle.retryCount_le hseen ha s.current_eq_getElem?
  have hzero := (h.lifecycle.retryCount (List.mem_of_getElem? ha)).1
  have hresets : ¬ (s.current.phase = .failed ∧ s.current.phase = .pending) := by
    rintro ⟨hfailed, hpending⟩
    rw [hfailed] at hpending
    cases hpending
  unfold Timeline.after
  rw [if_neg hresets]
  refine ⟨⟨h.lifecycle, ?_, ?_⟩, hheld⟩
  · intro request hrequest
    rcases List.mem_append.mp hrequest with hrequest | hrequest
    · exact h.named request hrequest
    · rw [List.mem_singleton.mp hrequest]
      exact ⟨a.retryCount, hzero, hle, rfl⟩
  · intro request hrequest reset hreset hone hname
    rcases List.mem_append.mp hrequest with hrequest | hrequest
    · exact h.paused request hrequest reset hreset hone hname
    · rw [List.mem_singleton.mp hrequest] at hname ⊢
      have hk : a.retryCount = reset.1 := workerPodName_injective hzero (by omega) hname
      exact hheld hpending (by omega) reset hreset hk.symm

theorem BackoffInv.write (h : BackoffInv task s l) (hacc : s.Accepts s.seen)
    (ha : s.current = a) (hmove : StatusMove task.spec a b) (hheld : HadPause l a)
    (t : AgentTask) :
    BackoffInv task (s.write b) (l.after s.current (s.write b).current (.updateTaskStatus t)) ∧
      HadPause (l.after s.current (s.write b).current (.updateTaskStatus t)) a := by
  rw [ha, Versioned.write_current]
  have hretry := hmove.retry
  have htask := h.lifecycle.write hacc ha hmove
  have hnamed : ∀ request ∈ l.asked, ∃ k, 0 ≤ k ∧ k ≤ (s.write b).current.retryCount ∧
      request.1.name = workerPodName task.name k := by
    intro request hrequest
    obtain ⟨k, hzero, hk, hname⟩ := h.named request hrequest
    refine ⟨k, hzero, ?_, hname⟩
    rw [Versioned.write_current]
    rw [ha] at hk
    split at hretry
    · omega
    · omega
  unfold Timeline.after
  by_cases hreset : a.phase = .failed ∧ b.phase = .pending
  · -- the new reset is for an attempt that no pod has been asked for
    rw [if_pos hreset] at hretry ⊢
    refine ⟨⟨htask, hnamed, ?_⟩, ?_⟩
    · intro request hrequest reset hmem hone hname
      rcases List.mem_append.mp hmem with hmem | hmem
      · exact h.paused request hrequest reset hmem hone hname
      · rw [List.mem_singleton.mp hmem] at hone hname
        obtain ⟨k, hzero, hk, hname'⟩ := h.named request hrequest
        rw [ha] at hk
        have hsame : k = b.retryCount :=
          workerPodName_injective hzero (by omega) (hname'.symm.trans hname)
        omega
    · intro hpending
      rw [hreset.1] at hpending
      cases hpending
  · rw [if_neg hreset]
    exact ⟨⟨htask, hnamed, h.paused⟩, hheld⟩

end Calls

/-! ## Every run -/

/-- If no retry is read before its pause is over, no pod is asked for before it is over. -/
theorem paused_before_retry (hstore : Stores task env store) {w₀ : W}
    (h₀ : store w₀ = Versioned.start .empty)
    {c : Pool Unit ApiOp ApiOp.Resp Outcome (W × Timeline)}
    (hc : Reachable ((timed env store).restrict Patient) task (w₀, .start) c) :
    Paused task c.world.2 := by
  have hstores : Stores task ((timed env store).restrict Patient) fun w => store w.1 := by
    refine ⟨fun h => hstore.answer h.1.1, fun h => ?_⟩
    rcases h with ⟨hd, _⟩ | ⟨hw, _⟩
    · exact hstore.drift hd
    · rw [hw]
  have hinv : BackoffInv task (store c.world.1) c.world.2 := by
    refine hstores.invariant_held (fun w => BackoffInv task (store w.1) w.2)
      (fun a w => HadPause w.2 a) ?_ ?_ ?_ ?_ ?_ hc
    · rintro w w' h (⟨hd, hl⟩ | ⟨hw, t, _, hl⟩)
      · rw [hstore.drift hd, hl]
        exact h
      · rw [hw, hl]
        exact ⟨h.lifecycle, h.named, h.paused⟩
    · rintro a w w' h (⟨_, hl⟩ | ⟨_, t, ht, hl⟩)
      · rw [hl]
        exact h
      · rw [hl]
        intro hpending hone reset hreset hk
        exact Int.le_trans (h hpending hone reset hreset hk) ht
    · rintro w r w' h ⟨⟨hans, _, hl⟩, hpatient⟩
      have hserve := hstore.answer hans
      have hcurrent : (store w'.1).current = (store w.1).current := by
        rcases hserve.read with hs | ⟨_, _, _, _, hs⟩
        · rw [hs]
        · rw [hs]
          exact Versioned.current_congr rfl
      have hunchanged : ∀ a, BackoffInv task (store w'.1) w'.2 ∧
          (HadPause w.2 a → HadPause w'.2 a) := by
        intro a
        rw [hl]
        exact h.unchanged (h.lifecycle.serve_read hserve) hcurrent fun pod heq => by cases heq
      refine ⟨(hunchanged .empty).1, ?_⟩
      rintro n a rfl
      exact (hunchanged a).2 hpatient
    · rintro w o r w' a h hheld ha ho ⟨⟨hans, _, hl⟩, _⟩
      have hserve := hstore.answer hans
      rcases hserve.cases ha ho with hs | ⟨b, rfl, hacc, hcurrent, hwrite, hs⟩
      · by_cases hcreate : ∃ pod, o = .createPod pod
        · obtain ⟨pod, rfl⟩ := hcreate
          obtain ⟨hpending, agent, rfl⟩ := ho
          rw [hl, hs]
          exact h.ask ha hheld hpending
        · obtain ⟨hinv, hpause⟩ := h.unchanged (a := a) h.lifecycle rfl fun pod heq =>
            hcreate ⟨pod, heq⟩
          rw [hl, hs]
          exact ⟨hinv, hpause hheld⟩
      · rw [hl, hs]
        exact h.write hacc hcurrent
          (hwrite.statusMove (h.lifecycle.known (List.mem_of_getElem? ha))) hheld _
    · rw [h₀]
      refine ⟨TaskInv.start _, ?_, ?_⟩
      · intro request hrequest
        cases hrequest
      · intro request hrequest
        cases hrequest
  exact hinv.paused

/-! ## A retry at once, and one after its pause -/

/-- The answers of a behaviour in time. -/
def Behaviour.timedRespond (b : Behaviour) (task : AgentTask)
    (w : Versioned AgentTaskStatus × Timeline) :
    (o : ApiOp) → o.Resp × (Versioned AgentTaskStatus × Timeline)
  | .now => (w.2.clock / second, w.1, w.2.after w.1.current w.1.current .now)
  | o => ((b.respond task w.1 o).1, (b.respond task w.1 o).2,
      w.2.after w.1.current (b.respond task w.1 o).2.current o)

theorem Behaviour.answer_timedRespond (b : Behaviour) (task : AgentTask)
    (w : Versioned AgentTaskStatus × Timeline) (o : ApiOp) :
    (timed (apiServer task) id).answer w o (b.timedRespond task w o).1 (b.timedRespond task w o).2 := by
  have hserve := b.serve_respond task w.1 o
  cases o with
  | now => exact ⟨rfl, rfl, rfl⟩
  | _ => exact ⟨hserve, trivial, rfl⟩

/-- The worker's pod is gone. -/
def demoVanished : Behaviour :=
  { demoCluster false with pod := fun _ => .error ⟨.notFound, "pods \"worker-t\" not found"⟩ }

abbrev RetryWorld : Type := Versioned AgentTaskStatus × Timeline

def retryStep (w : RetryWorld) : RetryWorld :=
  (play (demoVanished.timedRespond demoTask) (reconcile demoTask.key) w).2.2

/-- A pod is created and found to be gone. -/
def failedWorld : RetryWorld :=
  retryStep (retryStep (retryStep (Versioned.start .empty, .start)))

/-- The first retry is due in 30 seconds. -/
def resetWorld : RetryWorld := retryStep failedWorld

abbrev RetryReachable (env : Environment ApiOp ApiOp.Resp RetryWorld) (w : RetryWorld) : Prop :=
  Reachable env demoTask (Versioned.start .empty, .start) (Pool.idle w)

theorem resetWorld_reachable :
    RetryReachable ((timed (apiServer demoTask) id).restrict Patient) resetWorld := by
  have hstep : ∀ {w}, RetryReachable ((timed (apiServer demoTask) id).restrict Patient) w →
      PlaysWithin Patient (demoVanished.timedRespond demoTask) (reconcile demoTask.key) w →
      RetryReachable ((timed (apiServer demoTask) id).restrict Patient) (retryStep w) := by
    intro w h hwithin
    apply h.execute (i := ())
    exact Executes.of_play_restrict (demoVanished.answer_timedRespond demoTask) hwithin
  have hpending := hstep .refl (by decide)
  have hrunning := hstep hpending (by decide)
  have hfailed := hstep hrunning (by decide)
  exact hstep hfailed (by decide)

/-- The reset changes the task, and the Reconcile this starts creates the pod of the retry. -/
theorem retried_at_once :
    RetryReachable (timed (apiServer demoTask) id) (retryStep resetWorld) ∧
      resetWorld.1.versions ≠ failedWorld.1.versions ∧ resetWorld.2.clock = failedWorld.2.clock ∧
      ¬ Paused demoTask (retryStep resetWorld).2 := by
  refine ⟨?_, by decide, by decide, by decide⟩
  apply Pool.Reachable.execute (i := ()) resetWorld_reachable.of_restrict
  exact Executes.of_play (demoVanished.answer_timedRespond demoTask) _ _

/-- After thirty seconds. -/
def waitedWorld : RetryWorld := (resetWorld.1, { resetWorld.2 with clock := 30 * second })

theorem paused_before_retry_demo :
    (retryStep waitedWorld).2.asked.length = 2 ∧ Paused demoTask (retryStep waitedWorld).2 := by
  refine ⟨by decide, ?_⟩
  have hwaited : RetryReachable ((timed (apiServer demoTask) id).restrict Patient) waitedWorld :=
    resetWorld_reachable.drift (Or.inr ⟨rfl, 30 * second, by decide, rfl⟩)
  have hretried : RetryReachable ((timed (apiServer demoTask) id).restrict Patient)
      (retryStep waitedWorld) := by
    apply hwaited.execute (i := ())
    exact Executes.of_play_restrict (demoVanished.answer_timedRespond demoTask) (by decide)
  exact paused_before_retry (stores_apiServer demoTask) rfl hretried

end BulletFarm.Operator
