import BulletFarm.Operator.Wakeups

/-!
# Why a Reconcile makes a call

`MayCall` bounds what a Reconcile may do with the version it has read. For a task that
runs or waits for its pull request the answers of the Reconcile so far decide it:
`Justified` says which answers lead to which call.
-/

namespace BulletFarm.Operator

open Interaction Program

set_option autoImplicit false

variable {W : Type} {task : AgentTask}

/-- What a running task becomes once its worker, asked at the IP of `pod`, has answered
`status`, and which calls came after the answer. -/
inductive Reported (t : AgentTask) (pod : Pod) (status : WorkerStatus) :
    List (Event ApiOp.Resp) → AgentTaskStatus → Prop where
  | succeeded {time : Time} {reply : Except String HttpReply} {rest : List (Event ApiOp.Resp)} :
      status.phase = "Succeeded" ∨ status.phase = "Completed" →
      Reported t pod status
        (⟨.now, time⟩ :: ⟨.httpPost ⟨pod.podIP, t.name, .finalize⟩, reply⟩ :: rest)
        { polledStatus status t.status with
          phase := .waitingForPR
          progress := 100
          completedAt := some time
          message := "Task completed — PR marked ready for review, awaiting human action"
          prState := "open" }
  | incomplete {rest : List (Event ApiOp.Resp)} : status.phase = "Incomplete" →
      Reported t pod status rest { polledStatus status t.status with
        phase := .failed
        lastFailureReason := "incomplete"
        message :=
          if status.incompleteReason ≠ "" then "Task incomplete: " ++ status.incompleteReason
          else "Task incomplete: agent could not make meaningful changes" }
  | failed {rest : List (Event ApiOp.Resp)} : status.phase = "Failed" →
      Reported t pod status rest { polledStatus status t.status with
        phase := .failed
        message := status.message
        lastFailureReason := failureReason status }
  | unfinished {rest : List (Event ApiOp.Resp)} :
      status.phase ∉ ["Succeeded", "Completed", "Incomplete", "Failed"] →
      Reported t pod status rest (polledStatus status t.status)

/-- What is written over a running task, after which calls. -/
inductive RunningWrite (t : AgentTask) : List (Event ApiOp.Resp) → AgentTaskStatus → Prop where
  | disappeared {err : ApiError} : err.reason = .notFound →
      RunningWrite t [⟨.getPod t.podKey, .error err⟩] { t.status with
        phase := .failed
        message := "Worker pod not found"
        lastFailureReason := "pod_disappeared" }
  | podFailed {pod : Pod} : pod.phase = .failed →
      RunningWrite t [⟨.getPod t.podKey, .ok pod⟩] { t.status with
        phase := .failed
        message := "Worker pod failed"
        lastFailureReason := "pod_failed" }
  | podSucceeded {pod : Pod} {time : Time} : pod.phase = .succeeded →
      RunningWrite t [⟨.getPod t.podKey, .ok pod⟩, ⟨.now, time⟩] { t.status with
        phase := .completed
        progress := 100
        completedAt := some time
        message := "Task completed" }
  | answered {pod : Pod} {reply : Except String HttpReply} {status : WorkerStatus}
      {rest : List (Event ApiOp.Resp)} {s' : AgentTaskStatus} : pod.phase = .running →
      pod.podIP ≠ "" → decodeReply {} WorkerStatus.set reply = .ok status →
      Reported t pod status rest s' →
      RunningWrite t (⟨.getPod t.podKey, .ok pod⟩ ::
        ⟨.httpGet ⟨pod.podIP, t.name, .status⟩, reply⟩ :: rest) s'

/-- What is written over a task that waits for its pull request, after which calls. -/
inductive WaitingWrite (t : AgentTask) : List (Event ApiOp.Resp) → AgentTaskStatus → Prop where
  | noPR : t.status.pullRequestURL = "" →
      WaitingWrite t [] { t.status with phase := .closed, message := "No PR was created" }
  | untracked {r : Except ApiError Pod} :
      (∀ pod, r = .ok pod → pod.phase ≠ .running ∨ pod.podIP = "") →
      WaitingWrite t [⟨.getPod t.podKey, r⟩] { t.status with
        phase := .closed
        message := "Worker pod unavailable, cannot track PR" }
  | merged {pod : Pod} {reply graduation : Except String HttpReply} {prStatus : PRStatusResponse}
      {rest : List (Event ApiOp.Resp)} :
      decodeReply {} PRStatusResponse.set reply = .ok prStatus → prStatus.merged = true →
      WaitingWrite t (⟨.getPod t.podKey, .ok pod⟩ ::
        ⟨.httpGet ⟨pod.podIP, t.name, .prStatus⟩, reply⟩ ::
        ⟨.httpPost ⟨pod.podIP, t.name, .graduate⟩, graduation⟩ :: rest) { t.status with
          prState := prStatus.state
          phase := .merged
          message := "PR merged by reviewer" }
  | closed {pod : Pod} {reply graduation : Except String HttpReply} {prStatus : PRStatusResponse}
      {rest : List (Event ApiOp.Resp)} :
      decodeReply {} PRStatusResponse.set reply = .ok prStatus → prStatus.merged = false →
      prStatus.state = "closed" →
      WaitingWrite t (⟨.getPod t.podKey, .ok pod⟩ ::
        ⟨.httpGet ⟨pod.podIP, t.name, .prStatus⟩, reply⟩ ::
        ⟨.httpPost ⟨pod.podIP, t.name, .graduate⟩, graduation⟩ :: rest) { t.status with
          prState := prStatus.state
          phase := .closed
          message := "PR closed by reviewer without merge" }
  | undecided {pod : Pod} {reply : Except String HttpReply} {prStatus : PRStatusResponse} :
      decodeReply {} PRStatusResponse.set reply = .ok prStatus → prStatus.merged = false →
      prStatus.state ≠ "closed" →
      WaitingWrite t [⟨.getPod t.podKey, .ok pod⟩,
        ⟨.httpGet ⟨pod.podIP, t.name, .prStatus⟩, reply⟩] { t.status with
          prState := prStatus.state
          phase := .waitingForPR
          message := "PR open (draft=" ++ toString prStatus.draft ++ "), awaiting human review" }

/-- The calls of a Reconcile on a running task that depend on its answers. -/
def RunningCall (t : AgentTask) (tr : List (Event ApiOp.Resp)) : ApiOp → Prop
  | .updateTaskStatus t' => ∃ s', t' = { t with status := s' } ∧ RunningWrite t tr s'
  | .httpGet url => ∃ pod, tr = [⟨.getPod t.podKey, .ok pod⟩] ∧ url = ⟨pod.podIP, t.name, .status⟩
  | .httpPost url => ∃ pod reply status time,
      tr = [⟨.getPod t.podKey, .ok pod⟩, ⟨.httpGet ⟨pod.podIP, t.name, .status⟩, reply⟩, ⟨.now, time⟩] ∧
      decodeReply {} WorkerStatus.set reply = .ok status ∧
      (status.phase = "Succeeded" ∨ status.phase = "Completed") ∧
      url = ⟨pod.podIP, t.name, .finalize⟩
  | _ => True

/-- The calls of a Reconcile on a waiting task that depend on its answers. -/
def WaitingCall (t : AgentTask) (tr : List (Event ApiOp.Resp)) : ApiOp → Prop
  | .updateTaskStatus t' => ∃ s', t' = { t with status := s' } ∧ WaitingWrite t tr s'
  | .httpGet url => ∃ pod, tr = [⟨.getPod t.podKey, .ok pod⟩] ∧
      url = ⟨pod.podIP, t.name, .prStatus⟩
  | .httpPost url => ∃ pod reply prStatus,
      tr = [⟨.getPod t.podKey, .ok pod⟩, ⟨.httpGet ⟨pod.podIP, t.name, .prStatus⟩, reply⟩] ∧
      decodeReply {} PRStatusResponse.set reply = .ok prStatus ∧
      (prStatus.merged = true ∨ prStatus.state = "closed") ∧
      url = ⟨pod.podIP, t.name, .graduate⟩
  | _ => True

/-- A call the Reconcile may make on the version it has read, after these answers. -/
def Justified (t : AgentTask) (tr : List (Event ApiOp.Resp)) (o : ApiOp) : Prop :=
  MayCall true t o ∧
    match t.status.phase with
    | .running => RunningCall t tr o
    | .completed | .waitingForPR => WaitingCall t tr o
    | _ => True

/-! ## Every call is justified -/

section Follows

variable {t : AgentTask} {tr : List (Event ApiOp.Resp)} {o : ApiOp}

theorem Justified.of_running (ht : t.status.phase = .running)
    (hmay : MayCall true t o) (hcall : RunningCall t tr o) : Justified t tr o := by
  refine ⟨hmay, ?_⟩
  rw [ht]
  exact hcall

theorem Justified.of_waiting (ht : t.status.phase ∈ [Phase.completed, .waitingForPR])
    (hmay : MayCall true t o) (hcall : WaitingCall t tr o) : Justified t tr o := by
  refine ⟨hmay, ?_⟩
  rcases List.mem_pair.mp ht with ht | ht
  · rw [ht]
    exact hcall
  · rw [ht]
    exact hcall

theorem Justified.running (h : Justified t tr o) (ht : t.status.phase = .running) :
    RunningCall t tr o := by
  have hcall := h.2
  rwa [ht] at hcall

theorem Justified.waiting (h : Justified t tr o)
    (ht : t.status.phase ∈ [Phase.completed, .waitingForPR]) : WaitingCall t tr o := by
  have hcall := h.2
  rcases List.mem_pair.mp ht with ht | ht
  · rwa [ht] at hcall
  · rwa [ht] at hcall

theorem Bookkeeping.justified (h : Bookkeeping o) : Justified t tr o := by
  refine ⟨h.mayCall, ?_⟩
  split
  · cases o <;> trivial
  · cases o <;> trivial
  · cases o <;> trivial
  · trivial

theorem updateAgentStatus_follows (agentName ns : String) :
    (updateAgentStatus agentName ns).Follows (Justified t) tr :=
  (updateAgentStatus_uses (fun _ h => h) agentName ns).follows fun _ _ h => h.justified

theorem podFailure_follows (ht : t.status.phase = .running) {message reason : String}
    (hreason : reason ≠ "") (hwrite : RunningWrite t tr { t.status with
      phase := .failed, message := message, lastFailureReason := reason }) :
    (podFailure t message reason).Follows (Justified t) tr := by
  refine ⟨Justified.of_running ht (mayCall_withStatus ?_) ⟨_, rfl, hwrite⟩, fun _ => ?_⟩
  · simp only [MayWrite, ht]
    exact Or.inl ⟨message, reason, hreason, rfl⟩
  · exact (updateAgentStatus_follows _ _).bind fun _ _ _ => trivial

theorem podSucceeded_follows (ht : t.status.phase = .running) {podKey : NamespacedName} {pod : Pod}
    (hkey : podKey = t.podKey) (hpod : pod.phase = .succeeded) :
    (podSucceeded t).Follows (Justified t) [⟨.getPod podKey, .ok pod⟩] := by
  subst hkey
  unfold podSucceeded
  rw [if_pos (by rw [ht]; decide)]
  refine ⟨Bookkeeping.justified trivial, fun time => ⟨?_, fun _ => ?_⟩⟩
  · refine Justified.of_running ht (mayCall_withStatus ?_) ⟨_, rfl, .podSucceeded hpod⟩
    simp only [MayWrite, ht]
    exact Or.inr (Or.inl ⟨time, _, rfl⟩)
  · exact (updateAgentStatus_follows _ _).bind fun _ _ _ => trivial

theorem finishRunning_follows (ht : t.status.phase = .running)
    {f : AgentTaskStatus → AgentTaskStatus} (hreport : MayReport t.status (f t.status))
    (hwrite : RunningWrite t tr (f t.status)) :
    (finishRunning (t.withStatus f)).Follows (Justified t) tr := by
  refine ⟨Justified.of_running ht (mayCall_withStatus ?_) ⟨_, rfl, hwrite⟩, fun r => ?_⟩
  · simp only [MayWrite, ht]
    exact Or.inr (Or.inr hreport)
  · cases r with
    | error err => trivial
    | ok _ =>
      dsimp only
      split
      · trivial
      · split <;> trivial

theorem handleWorkerStatus_follows (ht : t.status.phase = .running) {pod : Pod}
    {reply : Except String HttpReply} {status : WorkerStatus} (hphase : pod.phase = .running)
    (hip : pod.podIP ≠ "") (hdecode : decodeReply {} WorkerStatus.set reply = .ok status) :
    (handleWorkerStatus t pod.podIP status).Follows (Justified t) [⟨.getPod t.podKey, .ok pod⟩,
      ⟨.httpGet ⟨pod.podIP, t.name, .status⟩, reply⟩] := by
  have hanswered : ∀ {rest : List (Event ApiOp.Resp)} {s' : AgentTaskStatus},
      Reported t pod status rest s' → RunningWrite t ([⟨.getPod t.podKey, .ok pod⟩,
        ⟨.httpGet ⟨pod.podIP, t.name, .status⟩, reply⟩] ++ rest) s' :=
    fun h => .answered hphase hip hdecode h
  unfold handleWorkerStatus
  dsimp only
  split
  · rename_i hsucceeded
    refine ⟨Bookkeeping.justified trivial, fun time => ⟨?_, fun posted => ?_⟩⟩
    · refine Justified.of_running ht ?_ ⟨pod, reply, status, time, rfl, hdecode, hsucceeded, rfl⟩
      exact fun h => by cases h
    · refine (updateAgentStatus_follows _ _).bind fun rest _ _ => ?_
      exact finishRunning_follows ht (f := fun s => _) ⟨status, Or.inr (Or.inl ⟨time, _, rfl⟩)⟩
        (hanswered (.succeeded hsucceeded))
  rename_i hsucceeded
  split
  · rename_i hincomplete
    refine (updateAgentStatus_follows _ _).bind fun rest _ _ => ?_
    exact finishRunning_follows ht (f := fun s => _)
      ⟨status, Or.inr (Or.inr ⟨_, "incomplete", by decide, rfl⟩)⟩ (hanswered (.incomplete hincomplete))
  rename_i hincomplete
  split
  · rename_i hfailed
    refine (updateAgentStatus_follows _ _).bind fun rest _ _ => ?_
    exact finishRunning_follows ht (f := fun s => _)
      ⟨status, Or.inr (Or.inr ⟨_, failureReason status, failureReason_ne_empty status, rfl⟩)⟩
      (hanswered (.failed hfailed))
  · rename_i hfailed
    refine finishRunning_follows ht ⟨status, Or.inl rfl⟩ (hanswered (.unfinished ?_))
    simp only [List.mem_cons, List.not_mem_nil, or_false, not_or]
    exact ⟨fun h => hsucceeded (Or.inl h), fun h => hsucceeded (Or.inr h), hincomplete, hfailed⟩

theorem handleRunning_follows (ht : t.status.phase = .running) :
    (handleRunning t).Follows (Justified t) [] := by
  refine ⟨Bookkeeping.justified trivial, fun r => ?_⟩
  cases r with
  | error err =>
    change (if err.reason = .notFound then podFailure t _ _ else _).Follows (Justified t) _
    split
    · rename_i hgone
      exact podFailure_follows ht (by decide) (.disappeared hgone)
    · trivial
  | ok pod =>
    change (watchPod t (.ok pod)).Follows (Justified t) _
    unfold watchPod
    dsimp only
    split
    · rename_i hphase
      exact podFailure_follows ht (by decide) (.podFailed hphase)
    · rename_i hphase
      exact podSucceeded_follows ht rfl hphase
    · rename_i hphase
      split
      · trivial
      · rename_i hip
        refine ⟨Justified.of_running ht ⟨rfl, fun h => by cases h⟩ ⟨pod, rfl, rfl⟩, fun reply => ?_⟩
        dsimp only [Program.bind, pure_eq]
        cases hdecode : decodeReply {} WorkerStatus.set reply with
        | error err => trivial
        | ok status => exact handleWorkerStatus_follows ht hphase hip hdecode
    · trivial

theorem finishWaiting_follows (ht : t.status.phase ∈ [Phase.completed, .waitingForPR])
    {s' : AgentTaskStatus} (hmay : MayCall true t (.updateTaskStatus { t with status := s' }))
    (hwrite : WaitingWrite t tr s') :
    (finishWaiting { t with status := s' }).Follows (Justified t) tr := by
  refine ⟨Justified.of_waiting ht hmay ⟨_, rfl, hwrite⟩, fun r => ?_⟩
  cases r with
  | error err => trivial
  | ok _ =>
    refine (updateAgentStatus_follows _ _).bind fun _ _ _ => ?_
    split <;> trivial

theorem cleanupWorkerPod_follows (ht : t.status.phase ∈ [Phase.completed, .waitingForPR])
    (podName ns : String) : (cleanupWorkerPod podName ns).Follows (Justified t) tr := by
  refine ⟨Bookkeeping.justified trivial, fun r => ?_⟩
  cases r with
  | error err => trivial
  | ok pod => exact ⟨Justified.of_waiting ht (mayCall_deletePod ht _) trivial, fun _ => trivial⟩

theorem concludePR_follows (ht : t.status.phase ∈ [Phase.completed, .waitingForPR]) {pod : Pod}
    {reply : Except String HttpReply} {prStatus : PRStatusResponse}
    (hdecode : decodeReply {} PRStatusResponse.set reply = .ok prStatus)
    (hdecided : prStatus.merged = true ∨ prStatus.state = "closed") {phase : Phase} {message : String}
    (hphase : phase ∈ [Phase.waitingForPR, .merged, .closed])
    (hwrite : ∀ graduation rest, WaitingWrite t (⟨.getPod t.podKey, .ok pod⟩ ::
      ⟨.httpGet ⟨pod.podIP, t.name, .prStatus⟩, reply⟩ ::
      ⟨.httpPost ⟨pod.podIP, t.name, .graduate⟩, graduation⟩ :: rest)
      { t.status with prState := prStatus.state, phase := phase, message := message }) :
    (concludePR (t.withStatus fun s => { s with prState := prStatus.state }) pod.podIP phase
      message).Follows (Justified t) [⟨.getPod t.podKey, .ok pod⟩,
        ⟨.httpGet ⟨pod.podIP, t.name, .prStatus⟩, reply⟩] := by
  refine ⟨Justified.of_waiting ht (fun _ => ht) ⟨pod, reply, prStatus, rfl, hdecode, hdecided, rfl⟩,
    fun graduation => ?_⟩
  refine (cleanupWorkerPod_follows ht _ _).bind fun rest _ _ => ?_
  exact finishWaiting_follows ht (mayCall_track ht hphase _ _) (hwrite graduation rest)

theorem handlePRStatus_follows (ht : t.status.phase ∈ [Phase.completed, .waitingForPR]) {pod : Pod}
    {reply : Except String HttpReply} {prStatus : PRStatusResponse}
    (hdecode : decodeReply {} PRStatusResponse.set reply = .ok prStatus) :
    (handlePRStatus t pod.podIP prStatus).Follows (Justified t) [⟨.getPod t.podKey, .ok pod⟩,
      ⟨.httpGet ⟨pod.podIP, t.name, .prStatus⟩, reply⟩] := by
  unfold handlePRStatus
  dsimp only
  split
  · rename_i hmerged
    exact concludePR_follows ht hdecode (Or.inl hmerged) (by simp)
      fun _ _ => .merged hdecode hmerged
  rename_i hmerged
  have hopen : prStatus.merged = false := by simpa using hmerged
  split
  · rename_i hclosed
    exact concludePR_follows ht hdecode (Or.inr hclosed) (by simp)
      fun _ _ => .closed hdecode hopen hclosed
  · rename_i hclosed
    exact finishWaiting_follows ht (mayCall_track ht (by simp) _ _) (.undecided hdecode hopen hclosed)

theorem closeUntracked_follows (ht : t.status.phase ∈ [Phase.completed, .waitingForPR])
    {r : Except ApiError Pod} (hr : ∀ pod, r = .ok pod → pod.phase ≠ .running ∨ pod.podIP = "") :
    (closeUntracked t).Follows (Justified t) [⟨.getPod t.podKey, r⟩] := by
  refine ⟨Justified.of_waiting ht (mayCall_close ht _) ⟨_, rfl, .untracked hr⟩, fun _ => ?_⟩
  exact (updateAgentStatus_follows _ _).bind fun _ _ _ => trivial

theorem handleWaitingForPR_follows (ht : t.status.phase ∈ [Phase.completed, .waitingForPR]) :
    (handleWaitingForPR t).Follows (Justified t) [] := by
  by_cases hurl : t.status.pullRequestURL = ""
  · rw [handleWaitingForPR_noPR hurl]
    refine ⟨Justified.of_waiting ht (mayCall_close ht _) ⟨_, rfl, .noPR hurl⟩, fun _ => ?_⟩
    refine (cleanupWorkerPod_follows ht _ _).bind fun _ _ _ => ?_
    exact (updateAgentStatus_follows _ _).bind fun _ _ _ => trivial
  rw [handleWaitingForPR_eq hurl]
  refine ⟨Bookkeeping.justified trivial, fun r => ?_⟩
  rcases unavailable_or_available r with hgone | ⟨pod, rfl, hphase, hip⟩
  · rw [trackPR_unavailable hgone]
    exact closeUntracked_follows ht hgone
  · rw [trackPR_available hphase hip]
    refine ⟨Justified.of_waiting ht ⟨rfl, fun _ => ht⟩ ⟨pod, rfl, rfl⟩, fun reply => ?_⟩
    dsimp only [Program.bind, pure_eq]
    cases hdecode : decodeReply {} PRStatusResponse.set reply with
    | error err => trivial
    | ok prStatus => exact handlePRStatus_follows ht hdecode

theorem dispatch_follows (t : AgentTask) : (dispatch t).Follows (Justified t) [] := by
  by_cases hrunning : t.status.phase = .running
  · rw [dispatch_running hrunning]
    exact handleRunning_follows hrunning
  by_cases hwaiting : t.status.phase ∈ [Phase.completed, .waitingForPR]
  · rw [dispatch_waiting hwaiting]
    exact handleWaitingForPR_follows hwaiting
  · apply (dispatch_uses t).follows
    intro tr o ho
    refine ⟨ho, ?_⟩
    split
    · rename_i h
      exact absurd h hrunning
    · rename_i h
      exact absurd (by simp [h]) hwaiting
    · rename_i h
      exact absurd (by simp [h]) hwaiting
    · trivial

end Follows

/-! ## Invariants that know the answers -/

/-- An invariant of the operator's runs, with what the answers to a Reconcile have
established so far: the world's own moves, the reads of the task, and the justified calls
of a Reconcile keep it. -/
theorem Stores.invariant_justified {env : Environment ApiOp ApiOp.Resp W}
    {store : W → Versioned AgentTaskStatus} (hstore : Stores task env store) (inv : W → Prop)
    (held : AgentTaskStatus → List (Event ApiOp.Resp) → W → Prop)
    (drift : ∀ w w', inv w → env.drift w w' → inv w')
    (drift_held : ∀ a tr w w', held a tr w → env.drift w w' → held a tr w')
    (read : ∀ w r w', inv w → env.answer w (.getTask task.key) r w' →
      inv w' ∧ ∀ n a, r = .ok (task.version n a) → held a [] w')
    (step : ∀ w o r w' a tr, inv w → held a tr w →
      (store w).versions[(store w).seen]? = some a →
      Justified (task.version (store w).seen a) tr o → env.answer w o r w' →
      inv w' ∧ held a (tr ++ [⟨o, r⟩]) w')
    {w₀ : W} (h₀ : inv w₀) {c : Pool Unit ApiOp ApiOp.Resp Outcome W}
    (hc : Reachable env task w₀ c) : inv c.world :=
  hstore.invariant_follows dispatch_follows (fun _ _ _ h => h.1) inv held drift drift_held read
    step h₀ hc

end BulletFarm.Operator
