import BulletFarm.Operator.Controller

/-!
# What a Reconcile may do

`MayWrite` lists, phase by phase, every status a Reconcile may write over the
status it has read; `MayCall` adds the pods it may create and delete. The
invariants of the operator are derived from these two and from nothing else of
the handlers, except where the order of the calls matters.
-/

namespace BulletFarm.Operator

open Go Interaction Program

set_option autoImplicit false

/-- The status a worker's answer may lead to. -/
def MayReport (s s' : AgentTaskStatus) : Prop :=
  ∃ status : WorkerStatus,
    s' = polledStatus status s ∨
    (∃ time message, s' = { polledStatus status s with
      phase := .waitingForPR
      progress := 100
      completedAt := some time
      message := message
      prState := "open" }) ∨
    (∃ message reason, reason ≠ "" ∧ s' = { polledStatus status s with
      phase := .failed
      message := message
      lastFailureReason := reason })

def MayWrite (t : AgentTask) (s' : AgentTaskStatus) : Prop :=
  match t.status.phase with
  | .unset => s' = { t.status with phase := .pending, progress := 0 }
  | .pending =>
    (∃ message, s' = { t.status with message := message }) ∨
    (∃ time message, s' = { t.status with
      phase := .running
      progress := 5
      workerPod := workerPodName t.name t.status.retryCount
      startedAt := some time
      message := message })
  | .running =>
    (∃ message reason, reason ≠ "" ∧ s' = { t.status with
      phase := .failed
      message := message
      lastFailureReason := reason }) ∨
    (∃ time message, s' = { t.status with
      phase := .completed
      progress := 100
      completedAt := some time
      message := message }) ∨
    MayReport t.status s'
  | .completed | .waitingForPR =>
    (∃ message, s' = { t.status with phase := .closed, message := message }) ∨
    (∃ phase message prState, phase ∈ [Phase.waitingForPR, .merged, .closed] ∧
      s' = { t.status with phase := phase, message := message, prState := prState })
  | .failed =>
    (t.status.retryCount < maxRetries t.spec ∧ ∃ message, s' = { t.status with
      retryCount := t.status.retryCount + 1
      phase := .pending
      progress := 0
      workerPod := ""
      startedAt := none
      completedAt := none
      message := message }) ∨
    (maxRetries t.spec ≤ t.status.retryCount ∧ ∃ message, s' = { t.status with message := message })
  | .merged | .closed => False
  | .unknown _ => s' = { t.status with phase := .pending }

/-- The pod `handlePending` creates for a task. -/
def podFor (t : AgentTask) (agent : Agent) : Pod :=
  { buildWorkerPod t agent (marshal (taskPayload t agent).toJson) with controller := some t.uid }

/-- `poll` says whether the worker may be asked how far it is. -/
def MayCall (poll : Bool) (t : AgentTask) : ApiOp → Prop
  | .getTask _ => False
  | .updateTaskStatus t' => ∃ s', t' = { t with status := s' } ∧ MayWrite t s'
  | .createPod pod => t.status.phase = .pending ∧ ∃ agent, pod = podFor t agent
  | .deletePod _ => t.status.phase ∈ [Phase.completed, .waitingForPR, .failed]
  | .httpGet url => poll = true ∧
    (url.endpoint = .prStatus → t.status.phase ∈ [Phase.completed, .waitingForPR])
  | .httpPost url => url.endpoint = .graduate → t.status.phase ∈ [Phase.completed, .waitingForPR]
  | _ => True

variable {poll : Bool}

/-- Reads, and the calls that keep the Agent's status up to date. -/
def Bookkeeping : ApiOp → Prop
  | .getAgent _ | .getPod _ | .listTasks _ | .now | .updateAgentStatus _ => True
  | _ => False

theorem Bookkeeping.mayCall {t : AgentTask} {o : ApiOp} (h : Bookkeeping o) : MayCall poll t o := by
  cases o <;> trivial

section Shared
variable {ok : ApiOp → Prop} (hok : ∀ o, Bookkeeping o → ok o)
include hok

theorem updateAgentStatus_uses (agentName ns : String) : (updateAgentStatus agentName ns).Uses ok := by
  refine ⟨hok _ trivial, fun r => ?_⟩
  cases r with
  | error err => trivial
  | ok agent =>
    refine ⟨hok _ trivial, fun r => ?_⟩
    cases r with
    | error err => trivial
    | ok tasks => exact ⟨hok _ trivial, fun time => ⟨hok _ trivial, fun _ => trivial⟩⟩

theorem cleanupWorkerPod_uses (podName ns : String) (hdelete : ∀ key, ok (.deletePod key)) :
    (cleanupWorkerPod podName ns).Uses ok := by
  refine ⟨hok _ trivial, fun r => ?_⟩
  cases r with
  | error err => trivial
  | ok pod => exact ⟨hdelete _, fun _ => trivial⟩

theorem finishWaiting_uses {t : AgentTask} (hwrite : ok (.updateTaskStatus t)) :
    (finishWaiting t).Uses ok := by
  refine ⟨hwrite, fun r => ?_⟩
  cases r with
  | error err => trivial
  | ok _ =>
    apply (updateAgentStatus_uses hok _ _).bind
    intro _
    split <;> trivial

theorem concludePR_uses {t : AgentTask} {podIP message : String} {phase : Phase}
    (hpost : ok (.httpPost ⟨podIP, t.name, .graduate⟩)) (hdelete : ∀ key, ok (.deletePod key))
    (hwrite : ok (.updateTaskStatus (t.withStatus fun s =>
      { s with phase := phase, message := message }))) :
    (concludePR t podIP phase message).Uses ok := by
  refine ⟨hpost, fun _ => ?_⟩
  apply (cleanupWorkerPod_uses hok _ _ hdelete).bind
  intro _
  exact finishWaiting_uses hok hwrite

end Shared

theorem updateAgentStatus_mayCall (t : AgentTask) (agentName ns : String) :
    (updateAgentStatus agentName ns).Uses (MayCall poll t) :=
  updateAgentStatus_uses (fun _ h => h.mayCall) agentName ns

/-- A write of the task that the handlers share: read, change the status, write. -/
theorem mayCall_withStatus {t : AgentTask} {f : AgentTaskStatus → AgentTaskStatus}
    (h : MayWrite t (f t.status)) : MayCall poll t (.updateTaskStatus (t.withStatus f)) :=
  ⟨_, rfl, h⟩

theorem recordRunning_uses {t : AgentTask} (ht : t.status.phase = .pending) :
    (recordRunning t (workerPodName t.name t.status.retryCount)).Uses (MayCall poll t) := by
  refine ⟨trivial, fun time => ⟨mayCall_withStatus ?_, fun r => ?_⟩⟩
  · simp only [MayWrite, ht]
    exact Or.inr ⟨time, _, rfl⟩
  · cases r with
    | error err => trivial
    | ok _ => exact (updateAgentStatus_mayCall t _ _).bind fun _ => trivial

theorem postpone_uses {t : AgentTask} (ht : t.status.phase = .pending) (message : String) :
    (postpone t message).Uses (MayCall poll t) := by
  refine ⟨mayCall_withStatus ?_, fun _ => trivial⟩
  simp only [MayWrite, ht]
  exact Or.inl ⟨message, rfl⟩

theorem handlePending_uses {t : AgentTask} (ht : t.status.phase = .pending) :
    (handlePending t).Uses (MayCall poll t) := by
  refine ⟨trivial, fun r => ?_⟩
  cases r with
  | error err => exact postpone_uses ht _
  | ok agent =>
    refine ⟨trivial, fun r => ?_⟩
    cases r with
    | error err => trivial
    | ok _ =>
      refine ⟨⟨ht, agent, rfl⟩, fun r => ?_⟩
      cases r with
      | ok _ => exact recordRunning_uses ht
      | error err =>
        change (if err.reason = .alreadyExists then recordRunning t _
          else postpone t _).Uses (MayCall poll t)
        split
        · exact recordRunning_uses ht
        · exact postpone_uses ht _

theorem podFailure_uses {t : AgentTask} (ht : t.status.phase = .running) (message reason : String)
    (hreason : reason ≠ "") : (podFailure t message reason).Uses (MayCall poll t) := by
  refine ⟨mayCall_withStatus ?_, fun _ => (updateAgentStatus_mayCall t _ _).bind fun _ => trivial⟩
  simp only [MayWrite, ht]
  exact Or.inl ⟨message, reason, hreason, rfl⟩

theorem finishRunning_uses {t : AgentTask} (ht : t.status.phase = .running)
    {f : AgentTaskStatus → AgentTaskStatus} (hf : MayReport t.status (f t.status)) :
    (finishRunning (t.withStatus f)).Uses (MayCall poll t) := by
  refine ⟨mayCall_withStatus ?_, fun r => ?_⟩
  · simp only [MayWrite, ht]
    exact Or.inr (Or.inr hf)
  · cases r with
    | error err => trivial
    | ok _ =>
      dsimp only
      split
      · trivial
      · split <;> trivial

theorem failureReason_ne_empty (status : WorkerStatus) : failureReason status ≠ "" := by
  unfold failureReason
  split
  · decide
  · split <;> decide

theorem handleWorkerStatus_uses {t : AgentTask} (ht : t.status.phase = .running) (podIP : String)
    (status : WorkerStatus) : (handleWorkerStatus t podIP status).Uses (MayCall poll t) := by
  unfold handleWorkerStatus
  dsimp only
  split
  · refine ⟨trivial, fun time => ⟨fun h => by simp at h, fun _ => ?_⟩⟩
    exact (updateAgentStatus_mayCall t _ _).bind fun _ =>
      finishRunning_uses ht (f := fun s => _) ⟨status, Or.inr (Or.inl ⟨time, _, rfl⟩)⟩
  split
  · exact (updateAgentStatus_mayCall t _ _).bind fun _ =>
      finishRunning_uses ht (f := fun s => _)
        ⟨status, Or.inr (Or.inr ⟨_, "incomplete", by decide, rfl⟩)⟩
  split
  · exact (updateAgentStatus_mayCall t _ _).bind fun _ =>
      finishRunning_uses ht (f := fun s => _)
        ⟨status, Or.inr (Or.inr ⟨_, failureReason status, failureReason_ne_empty status, rfl⟩)⟩
  · exact finishRunning_uses ht ⟨status, Or.inl rfl⟩

theorem podSucceeded_uses {t : AgentTask} (ht : t.status.phase = .running) :
    (podSucceeded t).Uses (MayCall poll t) := by
  unfold podSucceeded
  rw [if_pos (by rw [ht]; decide)]
  refine ⟨trivial, fun time => ⟨mayCall_withStatus ?_, fun _ => ?_⟩⟩
  · simp only [MayWrite, ht]
    exact Or.inr (Or.inl ⟨time, _, rfl⟩)
  · exact (updateAgentStatus_mayCall t _ _).bind fun _ => trivial

theorem watchPod_uses {t : AgentTask} (ht : t.status.phase = .running)
    (r : Except ApiError Pod) : (watchPod t r).Uses (MayCall true t) := by
  cases r with
  | error err =>
    change (if err.reason = .notFound then podFailure t _ _ else _).Uses (MayCall true t)
    split
    · exact podFailure_uses ht _ _ (by decide)
    · trivial
  | ok pod =>
    unfold watchPod
    dsimp only
    split
    · exact podFailure_uses ht _ _ (by decide)
    · exact podSucceeded_uses ht
    · split
      · trivial
      · refine ⟨⟨rfl, fun h => by cases h⟩, fun r => ?_⟩
        dsimp only [Program.bind, pure_eq]
        split
        · trivial
        · exact handleWorkerStatus_uses ht _ _
    · trivial

theorem handleRunning_uses {t : AgentTask} (ht : t.status.phase = .running) :
    (handleRunning t).Uses (MayCall true t) :=
  ⟨trivial, watchPod_uses ht⟩

theorem mayCall_track {t : AgentTask} (ht : t.status.phase ∈ [Phase.completed, .waitingForPR])
    {phase : Phase} (hphase : phase ∈ [Phase.waitingForPR, .merged, .closed])
    (message prState : String) : MayCall poll t (.updateTaskStatus (t.withStatus fun s =>
      { s with phase := phase, message := message, prState := prState })) := by
  apply mayCall_withStatus
  have hwrite : ∃ p m q, p ∈ [Phase.waitingForPR, .merged, .closed] ∧
      ({ t.status with phase := phase, message := message, prState := prState } :
        AgentTaskStatus) = { t.status with phase := p, message := m, prState := q } :=
    ⟨phase, message, prState, hphase, rfl⟩
  rcases List.mem_pair.mp ht with ht | ht
  · simp only [MayWrite, ht]
    exact Or.inr hwrite
  · simp only [MayWrite, ht]
    exact Or.inr hwrite

theorem mayCall_deletePod {t : AgentTask}
    (ht : t.status.phase ∈ [Phase.completed, .waitingForPR]) (key : NamespacedName) :
    MayCall poll t (.deletePod key) := by
  rcases List.mem_pair.mp ht with ht | ht
  · simp [MayCall, ht]
  · simp [MayCall, ht]

theorem mayCall_close {t : AgentTask} (ht : t.status.phase ∈ [Phase.completed, .waitingForPR])
    (message : String) : MayCall poll t (.updateTaskStatus (t.withStatus fun s =>
      { s with phase := .closed, message := message })) := by
  apply mayCall_withStatus
  rcases List.mem_pair.mp ht with ht | ht
  · simp only [MayWrite, ht]
    exact Or.inl ⟨message, rfl⟩
  · simp only [MayWrite, ht]
    exact Or.inl ⟨message, rfl⟩

theorem closeUntracked_uses {t : AgentTask}
    (ht : t.status.phase ∈ [Phase.completed, .waitingForPR]) :
    (closeUntracked t).Uses (MayCall poll t) :=
  ⟨mayCall_close ht _, fun _ => (updateAgentStatus_mayCall t _ _).bind fun _ => trivial⟩

theorem closeWithoutPR_uses {t : AgentTask}
    (ht : t.status.phase ∈ [Phase.completed, .waitingForPR]) :
    (closeWithoutPR t).Uses (MayCall poll t) := by
  refine ⟨mayCall_close ht _, fun _ => ?_⟩
  apply (cleanupWorkerPod_uses (fun _ h => h.mayCall) _ _ (mayCall_deletePod ht)).bind
  intro _
  exact (updateAgentStatus_mayCall t _ _).bind fun _ => trivial

theorem handlePRStatus_uses {t : AgentTask}
    (ht : t.status.phase ∈ [Phase.completed, .waitingForPR]) (podIP : String)
    (prStatus : PRStatusResponse) : (handlePRStatus t podIP prStatus).Uses (MayCall poll t) := by
  unfold handlePRStatus
  dsimp only
  split
  · exact concludePR_uses (fun _ h => h.mayCall) (fun _ => ht) (mayCall_deletePod ht)
      (mayCall_track ht (by simp) _ _)
  split
  · exact concludePR_uses (fun _ h => h.mayCall) (fun _ => ht) (mayCall_deletePod ht)
      (mayCall_track ht (by simp) _ _)
  · exact finishWaiting_uses (fun _ h => h.mayCall) (mayCall_track ht (by simp) _ _)

theorem trackPR_uses {t : AgentTask} (ht : t.status.phase ∈ [Phase.completed, .waitingForPR])
    (r : Except ApiError Pod) : (trackPR t r).Uses (MayCall true t) := by
  cases r with
  | error err => exact closeUntracked_uses ht
  | ok pod =>
    unfold trackPR
    dsimp only
    split
    · exact closeUntracked_uses ht
    · refine ⟨⟨rfl, fun _ => ht⟩, fun r => ?_⟩
      dsimp only [Program.bind, pure_eq]
      split
      · trivial
      · exact handlePRStatus_uses ht _ _

theorem handleWaitingForPR_uses {t : AgentTask}
    (ht : t.status.phase ∈ [Phase.completed, .waitingForPR]) :
    (handleWaitingForPR t).Uses (MayCall true t) := by
  unfold handleWaitingForPR
  split
  · exact closeWithoutPR_uses ht
  · exact ⟨trivial, trackPR_uses ht⟩

theorem retryTask_uses {t : AgentTask} (ht : t.status.phase = .failed)
    (hlt : t.status.retryCount < maxRetries t.spec) : (retryTask t).Uses (MayCall poll t) := by
  refine ⟨mayCall_withStatus ?_, fun r => ?_⟩
  · simp only [MayWrite, ht]
    exact Or.inl ⟨hlt, _, rfl⟩
  · cases r <;> trivial

theorem giveUp_uses {t : AgentTask} (ht : t.status.phase = .failed)
    (hge : maxRetries t.spec ≤ t.status.retryCount) : (giveUp t).Uses (MayCall poll t) := by
  refine ⟨mayCall_withStatus ?_, fun _ => trivial⟩
  simp only [MayWrite, ht]
  exact Or.inr ⟨hge, _, rfl⟩

theorem handleFailed_uses {t : AgentTask} (ht : t.status.phase = .failed) :
    (handleFailed t).Uses (MayCall poll t) := by
  have hend : (if t.status.retryCount < maxRetries t.spec then retryTask t else giveUp t).Uses
      (MayCall poll t) := by
    split
    · rename_i hlt
      exact retryTask_uses ht hlt
    · rename_i hge
      exact giveUp_uses ht (Int.not_lt.mp hge)
  unfold handleFailed
  dsimp only
  split
  · exact (cleanupWorkerPod_uses (fun _ h => h.mayCall) _ _ fun _ => by simp [MayCall, ht]).bind fun _ => hend
  · exact hend

theorem dispatch_uses (t : AgentTask) : (dispatch t).Uses (MayCall true t) := by
  unfold dispatch
  split
  · rename_i ht
    refine ⟨mayCall_withStatus ?_, fun r => by cases r <;> trivial⟩
    simp only [MayWrite, ht]
  · rename_i ht
    exact handlePending_uses ht
  · rename_i ht
    exact handleRunning_uses ht
  · rename_i ht
    exact handleFailed_uses ht
  · rename_i ht
    exact handleWaitingForPR_uses (by simp [ht])
  · rename_i ht
    exact handleWaitingForPR_uses (by simp [ht])
  · trivial
  · trivial
  · rename_i ht
    refine ⟨mayCall_withStatus ?_, fun _ => trivial⟩
    simp only [MayWrite, ht]

end BulletFarm.Operator
