import BulletFarm.System.Outcome

/-!
# The fields of a status and its phase

The operator copies what a worker has answered before it knows which phase comes of it, and
clears some fields only when the task goes back to Pending. Every status it persists has the
fields that its phase calls for.
-/

namespace BulletFarm.System

open Interaction Program Operator
open Worker (OpenOrClosed Process TaskStatus WorkerOp getTaskPRStatus_state getTaskStatus_eq_ok)

set_option autoImplicit false

variable {task : AgentTask} {a b s : AgentTaskStatus} {n : Nat} {tr : List (Event ApiOp.Resp)}
  {w w' : Fleet × Inquiry}

/-- What the phase of a status says of its other fields. -/
structure Coherent (s : AgentTaskStatus) : Prop where
  fresh : s.phase ∈ [Phase.unset, .pending] →
    s.workerPod = "" ∧ s.startedAt = none ∧ s.completedAt = none ∧ s.progress = 0
  running : s.phase = .running → s.workerPod ≠ "" ∧ s.startedAt ≠ none ∧ s.completedAt = none ∧
    0 ≤ s.progress ∧ s.progress ≤ 99
  failed : s.phase = .failed → s.lastFailureReason ≠ "" ∧ s.completedAt = none
  finished : s.phase ∈ [Phase.completed, .waitingForPR, .merged, .closed] → s.startedAt ≠ none ∧
    s.completedAt ≠ none ∧ s.workerPod ≠ "" ∧ s.progress = 100
  merged : s.prState = "merged" ↔ s.phase = .merged

/-! ## One write -/

theorem coherent_of_fresh (hphase : s.phase ∈ [Phase.unset, .pending])
    (hfields : s.workerPod = "" ∧ s.startedAt = none ∧ s.completedAt = none ∧ s.progress = 0)
    (hstate : s.prState ≠ "merged") : Coherent s := by
  rcases List.mem_pair.mp hphase with hp | hp
  · constructor <;> simp [hp, hfields, hstate]
  · constructor <;> simp [hp, hfields, hstate]

theorem coherent_of_running (hphase : s.phase = .running) (hpod : s.workerPod ≠ "")
    (hstarted : s.startedAt ≠ none) (hcompleted : s.completedAt = none)
    (hprogress : 0 ≤ s.progress ∧ s.progress ≤ 99) (hstate : s.prState ≠ "merged") : Coherent s := by
  constructor <;> simp [hphase, hpod, hstarted, hcompleted, hprogress, hstate]

theorem coherent_of_failed (hphase : s.phase = .failed) (hreason : s.lastFailureReason ≠ "")
    (hcompleted : s.completedAt = none) (hstate : s.prState ≠ "merged") : Coherent s := by
  constructor <;> simp [hphase, hreason, hcompleted, hstate]

theorem coherent_of_finished (hphase : s.phase ∈ [Phase.completed, .waitingForPR, .merged, .closed])
    (hstarted : s.startedAt ≠ none) (hcompleted : s.completedAt ≠ none) (hpod : s.workerPod ≠ "")
    (hprogress : s.progress = 100) (hstate : s.prState = "merged" ↔ s.phase = .merged) :
    Coherent s := by
  simp only [List.mem_cons, List.not_mem_nil, or_false] at hphase
  refine ⟨fun h => ?_, fun h => ?_, fun h => ?_, fun _ => ⟨hstarted, hcompleted, hpod, hprogress⟩, hstate⟩
  · rcases hphase with hp | hp | hp | hp <;> simp [hp] at h
  · rcases hphase with hp | hp | hp | hp <;> simp [hp] at h
  · rcases hphase with hp | hp | hp | hp <;> simp [hp] at h

theorem Coherent.not_merged (h : Coherent s) (hphase : s.phase ≠ .merged) : s.prState ≠ "merged" :=
  fun hstate => hphase (h.merged.mp hstate)

/-- What an answer of a worker may be relied on for: before its end a run has not done all of
its work, and a state is "merged" exactly if the pull request is. -/
def Truthful : Event ApiOp.Resp → Prop
  | ⟨.httpGet url, reply⟩ =>
    (url.endpoint = .status → ∀ s, decodeReply {} WorkerStatus.set reply = .ok s →
      s.phase ∉ ["Succeeded", "Completed", "Incomplete", "Failed"] →
        0 ≤ s.progress ∧ s.progress ≤ 99) ∧
    (url.endpoint = .prStatus → ∀ s, decodeReply {} PRStatusResponse.set reply = .ok s →
      (s.state = "merged" ↔ s.merged = true))
  | _ => True

theorem Coherent.running_write (h : Coherent a) (hphase : a.phase = .running)
    (htruthful : ∀ e ∈ tr, Truthful e) (hwrite : RunningWrite (task.version n a) tr b) :
    Coherent b := by
  obtain ⟨hpod, hstarted, hcompleted, _⟩ := h.running hphase
  have hstate := h.not_merged (by rw [hphase]; simp)
  cases hwrite with
  | disappeared _ => exact coherent_of_failed rfl (by simp) hcompleted hstate
  | podFailed _ => exact coherent_of_failed rfl (by simp) hcompleted hstate
  | podSucceeded _ =>
    exact coherent_of_finished (by simp) hstarted (by simp) hpod rfl (iff_of_false hstate (by simp))
  | @answered pod reply status rest _ _ _ hdecode hreported =>
    cases hreported with
    | succeeded _ =>
      exact coherent_of_finished (by simp) hstarted (by simp) hpod rfl (iff_of_false (by simp) (by simp))
    | incomplete _ => exact coherent_of_failed rfl (by simp) hcompleted hstate
    | failed _ => exact coherent_of_failed rfl (failureReason_ne_empty status) hcompleted hstate
    | unfinished hno =>
      have hreply : Truthful ⟨.httpGet ⟨pod.podIP, task.name, .status⟩, reply⟩ :=
        htruthful _ (List.mem_cons_of_mem _ List.mem_cons_self)
      exact coherent_of_running hphase hpod hstarted hcompleted (hreply.1 rfl status hdecode hno) hstate

theorem Coherent.waiting_write (h : Coherent a) (hphase : a.phase ∈ [Phase.completed, .waitingForPR])
    (htruthful : ∀ e ∈ tr, Truthful e) (hwrite : WaitingWrite (task.version n a) tr b) :
    Coherent b := by
  have hfinished : a.phase ∈ [Phase.completed, .waitingForPR, .merged, .closed] ∧ a.phase ≠ .merged := by
    rcases List.mem_pair.mp hphase with hp | hp
    · simp [hp]
    · simp [hp]
  obtain ⟨hstarted, hcompleted, hpod, hprogress⟩ := h.finished hfinished.1
  have hstate := h.not_merged hfinished.2
  have hstates : ∀ {pod : Pod} {reply : Except String HttpReply} {prStatus : PRStatusResponse}
      {rest : List (Event ApiOp.Resp)},
      (∀ e ∈ ⟨.getPod (task.version n a).podKey, .ok pod⟩ ::
        ⟨.httpGet ⟨pod.podIP, task.name, .prStatus⟩, reply⟩ :: rest, Truthful e) →
      decodeReply {} PRStatusResponse.set reply = .ok prStatus →
      (prStatus.state = "merged" ↔ prStatus.merged = true) := by
    intro pod reply prStatus rest htold hdecode
    have hreply : Truthful ⟨.httpGet ⟨pod.podIP, task.name, .prStatus⟩, reply⟩ :=
      htold _ (List.mem_cons_of_mem _ List.mem_cons_self)
    exact hreply.2 rfl prStatus hdecode
  cases hwrite with
  | noPR _ =>
    exact coherent_of_finished (by simp) hstarted hcompleted hpod hprogress
      (iff_of_false hstate (by simp))
  | untracked _ =>
    exact coherent_of_finished (by simp) hstarted hcompleted hpod hprogress
      (iff_of_false hstate (by simp))
  | merged hdecode hmerged =>
    exact coherent_of_finished (by simp) hstarted hcompleted hpod hprogress
      (iff_of_true ((hstates htruthful hdecode).mpr hmerged) rfl)
  | closed _ _ hclosed =>
    exact coherent_of_finished (by simp) hstarted hcompleted hpod hprogress
      (iff_of_false (by simp [hclosed]) (by simp))
  | undecided hdecode hopen _ =>
    refine coherent_of_finished (by simp) hstarted hcompleted hpod hprogress
      (iff_of_false (fun hmerged => ?_) (by simp))
    have hsame := (hstates htruthful hdecode).mp hmerged
    rw [hopen] at hsame
    cases hsame

theorem Coherent.write (h : Coherent a) (hknown : a.phase.Known) (htruthful : ∀ e ∈ tr, Truthful e)
    (ho : Justified (task.version n a) tr (.updateTaskStatus (task.version n b))) : Coherent b := by
  obtain ⟨b', hb, hwrite⟩ := ho.1
  have hsame : b = b' := congrArg AgentTask.status hb
  subst hsame
  by_cases hrunning : a.phase = .running
  · obtain ⟨s', hs', hreason⟩ := ho.running hrunning
    have hb : b = s' := congrArg AgentTask.status hs'
    exact h.running_write hrunning htruthful (hb ▸ hreason)
  by_cases hwaiting : a.phase ∈ [Phase.completed, .waitingForPR]
  · obtain ⟨s', hs', hreason⟩ := ho.waiting hwaiting
    have hb : b = s' := congrArg AgentTask.status hs'
    exact h.waiting_write hwaiting htruthful (hb ▸ hreason)
  unfold MayWrite at hwrite
  split at hwrite
  · rename_i hphase
    rw [version_status] at hphase
    subst hwrite
    obtain ⟨hpod, hstarted, hcompleted, _⟩ := h.fresh (by simp [hphase])
    exact coherent_of_fresh (by simp) ⟨hpod, hstarted, hcompleted, rfl⟩ (h.not_merged (by simp [hphase]))
  · rename_i hphase
    rw [version_status] at hphase
    have hfields := h.fresh (by simp [hphase])
    have hstate := h.not_merged (by simp [hphase])
    rcases hwrite with ⟨message, rfl⟩ | ⟨time, message, rfl⟩
    · exact coherent_of_fresh (by simp [hphase]) hfields hstate
    · exact coherent_of_running rfl (workerPodName_ne_empty _ _) (by simp) hfields.2.2.1 (by simp) hstate
  · rename_i hphase
    exact absurd hphase hrunning
  · rename_i hphase
    exact absurd (List.mem_pair.mpr (Or.inl hphase)) hwaiting
  · rename_i hphase
    exact absurd (List.mem_pair.mpr (Or.inr hphase)) hwaiting
  · rename_i hphase
    rw [version_status] at hphase
    have hstate := h.not_merged (by simp [hphase])
    rcases hwrite with ⟨_, message, rfl⟩ | ⟨_, message, rfl⟩
    · exact coherent_of_fresh (by simp) ⟨rfl, rfl, rfl, rfl⟩ hstate
    · obtain ⟨hreason, hcompleted⟩ := h.failed hphase
      exact coherent_of_failed hphase hreason hcompleted hstate
  · exact hwrite.elim
  · exact hwrite.elim
  · rename_i text hphase
    exact absurd hphase (hknown text)

/-! ## Every run -/

/-- What the operator is told of a pull request comes of GitHub's two states. -/
def ShowsStates (_ : Fleet × Inquiry) : (o : ApiOp) → o.Resp → Fleet × Inquiry → Prop
  | .httpGet url, _, w' => url.endpoint = .prStatus → ∀ e ∈ w'.2.first, OpenOrClosed e
  | _, _, _ => True

instance (w : Fleet × Inquiry) (o : ApiOp) (r : o.Resp) (w' : Fleet × Inquiry) :
    Decidable (ShowsStates w o r w') :=
  match o with
  | .httpGet url =>
    inferInstanceAs (Decidable (url.endpoint = .prStatus → ∀ e ∈ w'.2.first, OpenOrClosed e))
  | .getTask _ | .updateTaskStatus _ | .getAgent _ | .getPod _ | .listTasks _
  | .setControllerReference _ _ | .createPod _ | .deletePod _ | .updateAgentStatus _ | .httpPost _
  | .now => isTrue trivial

theorem FleetInv.hears_progress {f : Fleet} (h : FleetInv task f) {url : WorkerURL}
    {reply : Except String HttpReply} (hhears : f.Hears (.httpGet url) reply)
    (hurl : url.endpoint = .status) {s : WorkerStatus}
    (hdecode : decodeReply {} WorkerStatus.set reply = .ok s)
    (hno : s.phase ∉ ["Succeeded", "Completed", "Incomplete", "Failed"]) :
    0 ≤ s.progress ∧ s.progress ≤ 99 := by
  obtain ⟨x, hx, _, status, hstatus, rfl⟩ := hhears hurl s hdecode
  have hexposed := getTaskStatus_eq_ok.mp hstatus
  obtain ⟨request, hrequest, _, hunfinished | hended⟩ := h.exposed hx hexposed
  · have hreached := (h.runners x hx).2
    rw [hrequest] at hreached
    have hprogress := hreached.progress _ _ hexposed hunfinished.phase
    rw [decode_reported ⟨hprogress.1, by omega⟩] at hdecode
    cases hdecode
    exact hprogress
  · have hconcluded := hended.concluded
    rw [(decode_statusReply hdecode).1] at hno
    simp only [Worker.Concluded, List.mem_cons, List.not_mem_nil, or_false] at hconcluded
    rcases hconcluded with hc | hc | hc <;> simp [hc, Worker.TaskPhase.value] at hno

theorem FleetInv.truthful (h : FleetInv task w.1) {o : ApiOp} {r : o.Resp}
    (hans : ((inquiry task).restrict ShowsStates).answer w o r w') : Truthful ⟨o, r⟩ := by
  obtain ⟨⟨⟨_, _, hhears, _⟩, hnext⟩, hstates⟩ := hans
  cases o with
  | httpGet url =>
    refine ⟨fun hurl s hdecode hno => h.hears_progress hhears hurl hdecode hno, fun hurl s hdecode => ?_⟩
    unfold Inquiry.Next at hnext
    dsimp only at hnext
    rw [if_pos hurl] at hnext
    obtain ⟨first, hlooks, hfirst⟩ := hnext
    obtain ⟨x, _, _, response, hend, rfl⟩ := hlooks s hdecode
    rw [decode_prStatusReply] at hdecode
    cases hdecode
    refine getTaskPRStatus_state hend ?_
    have hshown := hstates hurl
    rw [hfirst] at hshown
    exact hshown
  | _ => trivial

theorem fleets_inquiry (task : AgentTask) : Fleets task ((inquiry task).restrict ShowsStates) Prod.fst :=
  ⟨fun hans => ⟨_, hans.1.1, .refl⟩, fun hd => .single hd.1⟩

theorem coherent_start : Coherent .empty :=
  coherent_of_fresh (by simp [AgentTaskStatus.empty]) ⟨rfl, rfl, rfl, rfl⟩ (by simp [AgentTaskStatus.empty])

/-- Every status that is ever persisted is coherent. -/
theorem coherent_of_reachable {c : Pool Unit ApiOp ApiOp.Resp Operator.Outcome (Fleet × Inquiry)}
    (hc : Reachable ((inquiry task).restrict ShowsStates) task (Fleet.start, .start) c) :
    ∀ s ∈ c.world.1.store.versions, Coherent s := by
  refine ((fleets_inquiry task).invariant_held (fun w => ∀ s ∈ w.1.store.versions, Coherent s)
    (fun _ tr _ => ∀ e ∈ tr, Truthful e) ?_ (fun _ _ _ _ h _ => h) ?_ ?_ rfl ?_ hc).2
  · intro w w' _ h hd
    rw [hd.1.store_eq]
    exact h
  · intro w r w' hinv h hans
    rw [(hinv.read hans.1.1).2]
    exact ⟨h, fun _ e he => by cases he⟩
  · intro w o r w' a tr hinv h _ htruthful ha ho hans
    constructor
    · rcases ((stores_inquiry task).answer hans.1).cases ha ho.1 with hsame | ⟨b, rfl, _, _, _, hstore⟩
      · rw [hsame]
        exact h
      · rw [hstore]
        intro s hs
        rcases Versioned.mem_write hs with hs | rfl
        · exact h s hs
        · have hmem := List.mem_of_getElem? ha
          exact (h a hmem).write (hinv.lifecycle.known hmem) htruthful ho
    · intro e he
      rcases List.mem_append.mp he with he | he
      · exact htruthful e he
      · rw [List.mem_singleton.mp he]
        exact hinv.truthful hans
  · intro s hs
    rw [show s = .empty by simpa [Fleet.start] using hs]
    exact coherent_start

theorem allows_showsStates (task : AgentTask) :
    Inquiry.Allows task ((inquiry task).restrict ShowsStates) := by
  refine ⟨fun ho hans => ⟨(Inquiry.allows_inquiry task).answer ho hans, ?_⟩,
    (Inquiry.allows_inquiry task).drift⟩
  rename_i o r
  cases o with
  | httpGet url => exact fun hurl => absurd hurl ho
  | _ => trivial

theorem afterMerge_reachable (hstates : PlaysWithin ShowsStates
      (Inquiry.respond (.ok mergedPull) (.ok mergedPull)) (reconcile skilledTask.key)
      (waitingFleet, .start)) :
    Reachable ((inquiry skilledTask).restrict ShowsStates) skilledTask (Fleet.start, .start)
      (Pool.idle (afterInquiry (.ok mergedPull) (.ok mergedPull))) := by
  rw [afterInquiry_eq]
  exact (waitingFleet_reachable (allows_showsStates skilledTask)).execute (i := ())
    (Executes.of_play_restrict (Inquiry.answer_respond _ _) hstates)

/-- A task whose pull request is merged: all of its statuses, the last one included. -/
theorem coherent_of_reachable_demo :
    ((afterInquiry (.ok mergedPull) (.ok mergedPull)).1.store.versions.map AgentTaskStatus.phase) =
        [.unset, .pending, .running, .waitingForPR, .merged] ∧
      ∀ a ∈ (afterInquiry (.ok mergedPull) (.ok mergedPull)).1.store.versions, Coherent a := by
  have hrun : ((afterInquiry (.ok mergedPull) (.ok mergedPull)).1.store.versions.map
        AgentTaskStatus.phase) = [.unset, .pending, .running, .waitingForPR, .merged] ∧
      PlaysWithin ShowsStates (Inquiry.respond (.ok mergedPull) (.ok mergedPull))
        (reconcile skilledTask.key) (waitingFleet, .start) := by
    decide +kernel
  have hcoherent := coherent_of_reachable (afterMerge_reachable hrun.2)
  rw [Pool.idle_world] at hcoherent
  exact ⟨hrun.1, hcoherent⟩

end BulletFarm.System
