import BulletFarm.Operator.Calls

/-!
# The Agent controller

Its Reconcile counts the tasks of an Agent into the Agent's status. The Reconciles of tasks
do the same at some of their ends; nothing else of the operator writes an Agent.
-/

namespace BulletFarm.Operator

open Go Interaction Program

set_option autoImplicit false

/-- The status that lists these tasks. -/
def countedStatus (running : Slice String) (time : Time) : AgentStatus where
  ready := true
  activeTasks := running.items.length
  runningTasks := running
  lastReconciled := some time

/-- `AgentReconciler.Reconcile`. -/
def reconcileAgent (req : NamespacedName) : OperatorM Outcome := do
  match ← getAgent req with
  | .error err => if err.reason = .notFound then pure (.ok {}) else pure (.error err)
  | .ok agent =>
    match ← listTasks req.ns with
    | .error err => pure (.error err)
    | .ok taskList =>
      let running := runningTasks agent.name taskList
      let time ← now
      match ← writeAgentStatus { agent with status := countedStatus running time } with
      | .error err => pure (.error err)
      | .ok _ => pure (.ok { requeueAfter := requeueAfter })

/-- The calls but for those that write an Agent. -/
def LeavesAgents : ApiOp → Prop
  | .updateAgentStatus _ => False
  | _ => True

/-- A program that writes no Agent but by counting its tasks. -/
inductive Counting {α : Type} : OperatorM α → Prop where
  | ret (a : α) : Counting (.ret a)
  | call {o : ApiOp} {next : o.Resp → OperatorM α} : LeavesAgents o → (∀ r, Counting (next r)) →
      Counting (.call o next)
  | count (agentName ns : String) {rest : Unit → OperatorM α} : Counting (rest ()) →
      Counting (updateAgentStatus agentName ns >>= rest)

namespace Counting
variable {α β : Type}

theorem bind {p : OperatorM α} {f : α → OperatorM β} (hp : Counting p) (hf : ∀ a, Counting (f a)) :
    Counting (p >>= f) := by
  induction hp with
  | ret a => exact hf a
  | call ho _ ih => exact .call ho ih
  | count agentName ns _ ih =>
    rw [bind_bind]
    exact .count agentName ns ih

theorem of_uses {p : OperatorM α} (hp : p.Uses LeavesAgents) : Counting p := by
  induction p with
  | ret a => exact .ret a
  | call o next ih => exact .call hp.1 fun r => ih r (hp.2 r)

end Counting

/-! ## The handlers -/

theorem recordRunning_counting (t : AgentTask) (podName : String) :
    Counting (recordRunning t podName) := by
  refine .call trivial fun time => .call trivial fun r => ?_
  cases r with
  | error err => exact .ret _
  | ok _ => exact .count _ _ (.ret _)

theorem postpone_counting (t : AgentTask) (message : String) : Counting (postpone t message) :=
  .call trivial fun _ => .ret _

theorem handlePending_counting (t : AgentTask) : Counting (handlePending t) := by
  refine .call trivial fun r => ?_
  cases r with
  | error err => exact postpone_counting t _
  | ok agent =>
    refine .call trivial fun r => ?_
    cases r with
    | error err => exact .ret _
    | ok _ =>
      refine .call trivial fun r => ?_
      cases r with
      | ok _ => exact recordRunning_counting t _
      | error err =>
        change Counting (if err.reason = .alreadyExists then recordRunning t _ else postpone t _)
        split
        · exact recordRunning_counting t _
        · exact postpone_counting t _

theorem podFailure_counting (t : AgentTask) (message reason : String) :
    Counting (podFailure t message reason) :=
  .call trivial fun _ => .count _ _ (.ret _)

theorem podSucceeded_counting (t : AgentTask) : Counting (podSucceeded t) := by
  unfold podSucceeded
  split
  · exact .call trivial fun _ => .call trivial fun _ => .count _ _ (.ret _)
  · exact .ret _

theorem finishRunning_counting (t : AgentTask) : Counting (finishRunning t) := by
  refine .call trivial fun r => ?_
  cases r with
  | error err => exact .ret _
  | ok _ =>
    split
    · exact .ret _
    · split <;> exact .ret _

theorem handleWorkerStatus_counting (t : AgentTask) (podIP : String) (status : WorkerStatus) :
    Counting (handleWorkerStatus t podIP status) := by
  unfold handleWorkerStatus
  dsimp only
  split
  · refine .call trivial fun _ => .call trivial fun _ => ?_
    exact .count _ _ (finishRunning_counting _)
  split
  · exact .count _ _ (finishRunning_counting _)
  split
  · exact .count _ _ (finishRunning_counting _)
  · exact finishRunning_counting _

theorem handleRunning_counting (t : AgentTask) : Counting (handleRunning t) := by
  refine .call trivial fun r => ?_
  change Counting (watchPod t r)
  cases r with
  | error err =>
    unfold watchPod
    dsimp only
    split
    · exact podFailure_counting t _ _
    · exact .ret _
  | ok pod =>
    unfold watchPod
    dsimp only
    split
    · exact podFailure_counting t _ _
    · exact podSucceeded_counting t
    · split
      · exact .ret _
      · refine .call trivial fun r => ?_
        dsimp only [Program.bind, Program.pure_eq]
        split
        · exact .ret _
        · exact handleWorkerStatus_counting t _ _
    · exact .ret _

theorem cleanupWorkerPod_leavesAgents (podName ns : String) :
    (cleanupWorkerPod podName ns).Uses LeavesAgents := by
  refine ⟨trivial, fun r => ?_⟩
  cases r with
  | error err => trivial
  | ok pod => exact ⟨trivial, fun _ => trivial⟩

theorem finishWaiting_counting (t : AgentTask) : Counting (finishWaiting t) := by
  refine .call trivial fun r => ?_
  cases r with
  | error err => exact .ret _
  | ok _ =>
    apply Counting.count
    split <;> exact .ret _

theorem concludePR_counting (t : AgentTask) (podIP : String) (phase : Phase) (message : String) :
    Counting (concludePR t podIP phase message) := by
  refine .call trivial fun _ => ?_
  exact (Counting.of_uses (cleanupWorkerPod_leavesAgents _ _)).bind fun _ => finishWaiting_counting _

theorem closeUntracked_counting (t : AgentTask) : Counting (closeUntracked t) :=
  .call trivial fun _ => .count _ _ (.ret _)

theorem handleWaitingForPR_counting (t : AgentTask) : Counting (handleWaitingForPR t) := by
  unfold handleWaitingForPR
  split
  · refine .call trivial fun _ => ?_
    exact (Counting.of_uses (cleanupWorkerPod_leavesAgents _ _)).bind fun _ => .count _ _ (.ret _)
  · refine .call trivial fun r => ?_
    change Counting (trackPR t r)
    cases r with
    | error err => exact closeUntracked_counting t
    | ok pod =>
      unfold trackPR
      dsimp only
      split
      · exact closeUntracked_counting t
      · refine .call trivial fun r => ?_
        dsimp only [Program.bind, Program.pure_eq]
        split
        · exact .ret _
        · unfold handlePRStatus
          dsimp only
          split
          · exact concludePR_counting _ _ _ _
          split
          · exact concludePR_counting _ _ _ _
          · exact finishWaiting_counting _

theorem handleFailed_counting (t : AgentTask) : Counting (handleFailed t) := by
  have hend : Counting (if t.status.retryCount < maxRetries t.spec then retryTask t else giveUp t) := by
    split
    · refine .call trivial fun r => ?_
      cases r <;> exact .ret _
    · exact .call trivial fun _ => .ret _
  unfold handleFailed
  dsimp only
  split
  · exact (Counting.of_uses (cleanupWorkerPod_leavesAgents _ _)).bind fun _ => hend
  · exact hend

theorem reconcile_counting (req : NamespacedName) : Counting (reconcile req) := by
  refine .call trivial fun r => ?_
  cases r with
  | error err =>
    change Counting (if err.reason = .notFound then _ else _)
    split <;> exact .ret _
  | ok t =>
    change Counting (dispatch t)
    unfold dispatch
    split
    · refine .call trivial fun r => ?_
      cases r <;> exact .ret _
    · exact handlePending_counting t
    · exact handleRunning_counting t
    · exact handleFailed_counting t
    · exact handleWaitingForPR_counting t
    · exact handleWaitingForPR_counting t
    · exact .ret _
    · exact .ret _
    · exact .call trivial fun _ => .ret _

end BulletFarm.Operator
