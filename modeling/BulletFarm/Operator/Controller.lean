import BulletFarm.Operator.Payload
import Mathlib.Data.List.Infix

/-!
# The AgentTask controller

One Reconcile reads the task and runs the handler of its phase. The handlers
change the task in memory and write its status back; where the source drops the
error of that write, so does the program here. Logging is left out.
-/

namespace BulletFarm.Operator

open Go Interaction

set_option autoImplicit false

def requeueAfter : Duration := 15 * second

def prPollInterval : Duration := 30 * second

def retryBackoff : Duration := 30 * second

def defaultMaxRetries : Int := 2

def AgentTask.key (task : AgentTask) : NamespacedName := ⟨task.name, task.ns⟩

def AgentTask.podKey (task : AgentTask) : NamespacedName := ⟨task.status.workerPod, task.ns⟩

def AgentTask.withStatus (task : AgentTask) (f : AgentTaskStatus → AgentTaskStatus) : AgentTask :=
  { task with status := f task.status }

/-! ## The calls -/

abbrev getTask (key : NamespacedName) : OperatorM (Except ApiError AgentTask) :=
  .perform (ApiOp.getTask key)

abbrev getAgent (key : NamespacedName) : OperatorM (Except ApiError Agent) :=
  .perform (ApiOp.getAgent key)

abbrev getPod (key : NamespacedName) : OperatorM (Except ApiError Pod) :=
  .perform (ApiOp.getPod key)

abbrev listTasks (ns : String) : OperatorM (Except ApiError (List AgentTask)) :=
  .perform (ApiOp.listTasks ns)

abbrev setControllerReference (owner : AgentTask) (pod : Pod) :
    OperatorM (Except ApiError Unit) :=
  .perform (ApiOp.setControllerReference owner pod)

abbrev createPod (pod : Pod) : OperatorM (Except ApiError Unit) :=
  .perform (ApiOp.createPod pod)

abbrev deletePod (key : NamespacedName) : OperatorM (Except ApiError Unit) :=
  .perform (ApiOp.deletePod key)

/-- `r.Status().Update(ctx, task)`. -/
abbrev updateStatus (task : AgentTask) : OperatorM (Except ApiError Unit) :=
  .perform (ApiOp.updateTaskStatus task)

abbrev writeAgentStatus (agent : Agent) : OperatorM (Except ApiError Unit) :=
  .perform (ApiOp.updateAgentStatus agent)

abbrev httpGet (url : WorkerURL) : OperatorM (Except String HttpReply) :=
  .perform (ApiOp.httpGet url)

abbrev httpPost (url : WorkerURL) : OperatorM (Except String HttpReply) :=
  .perform (ApiOp.httpPost url)

abbrev now : OperatorM Time := .perform ApiOp.now

/-! ## The handlers -/

/-- The tasks an Agent's status counts as running. -/
def runningTasks (agentName : String) (tasks : List AgentTask) : Slice String :=
  tasks.foldl (fun acc t =>
    if t.spec.agentRef = agentName ∧ (t.status.phase = .running ∨ t.status.phase = .pending) then
      Slice.append acc t.name
    else acc) none

def updateAgentStatus (agentName ns : String) : OperatorM Unit := do
  match ← getAgent ⟨agentName, ns⟩ with
  | .error _ => pure ()
  | .ok agent =>
    match ← listTasks ns with
    | .error _ => pure ()
    | .ok taskList =>
      let running := runningTasks agentName taskList
      let time ← now
      let _ ← writeAgentStatus { agent with status := {
        ready := true
        activeTasks := running.items.length
        runningTasks := running
        lastReconciled := some time } }
      pure ()

/-- Deletes the pod if it exists; whatever fails is only logged. -/
def cleanupWorkerPod (podName ns : String) : OperatorM Unit := do
  match ← getPod ⟨podName, ns⟩ with
  | .error _ => pure ()
  | .ok pod =>
    let _ ← deletePod ⟨pod.name, pod.ns⟩
    pure ()

def queryWorkerStatus (podIP taskID : String) : OperatorM (Except QueryError WorkerStatus) := do
  let reply ← httpGet ⟨podIP, taskID, .status⟩
  pure (decodeReply {} WorkerStatus.set reply)

def queryPRStatus (podIP taskID : String) : OperatorM (Except QueryError PRStatusResponse) := do
  let reply ← httpGet ⟨podIP, taskID, .prStatus⟩
  pure (decodeReply {} PRStatusResponse.set reply)

/-- The reply is not looked at. -/
def finalizeWorker (podIP taskID : String) : OperatorM Unit := do
  let _ ← httpPost ⟨podIP, taskID, .finalize⟩
  pure ()

/-- The reply is not looked at. -/
def graduateWorker (podIP taskID : String) : OperatorM Unit := do
  let _ ← httpPost ⟨podIP, taskID, .graduate⟩
  pure ()

/-- `handlePending` once there is a pod: record the attempt. -/
def recordRunning (task : AgentTask) (podName : String) : OperatorM Outcome := do
  let time ← now
  let isRetry := task.status.retryCount > 0
  match ← updateStatus (task.withStatus fun s => { s with
    phase := .running
    progress := 5
    workerPod := podName
    startedAt := some time
    message :=
      if isRetry then
        "Retry " ++ toString s.retryCount ++ " started, pushing to existing branch " ++
          targetBranch task
      else "Worker pod created, starting task" }) with
  | .error err => pure (.error err)
  | .ok _ =>
    updateAgentStatus task.spec.agentRef task.ns
    pure (.ok { requeueAfter := requeueAfter })

/-- `handlePending` when it cannot go on: leave a message and try again later. -/
def postpone (task : AgentTask) (message : String) : OperatorM Outcome := do
  let _ ← updateStatus (task.withStatus fun s => { s with message := message })
  pure (.ok { requeueAfter := requeueAfter })

def handlePending (task : AgentTask) : OperatorM Outcome := do
  match ← getAgent ⟨task.spec.agentRef, task.ns⟩ with
  | .error _ => postpone task ("Agent " ++ quote task.spec.agentRef ++ " not found")
  | .ok agent =>
    let pod := buildWorkerPod task agent (marshal (taskPayload task agent).toJson)
    match ← setControllerReference task pod with
    | .error err => pure (.error err)
    | .ok _ =>
      match ← createPod { pod with controller := some task.uid } with
      | .ok _ => recordRunning task pod.name
      | .error err =>
        if err.reason = .alreadyExists then recordRunning task pod.name
        else postpone task ("Failed to create pod: " ++ err.text)

/-- The two failures `handleRunning` reads off the pod itself. -/
def podFailure (task : AgentTask) (message reason : String) : OperatorM Outcome := do
  let _ ← updateStatus (task.withStatus fun s =>
    { s with phase := .failed, message := message, lastFailureReason := reason })
  updateAgentStatus task.spec.agentRef task.ns
  pure (.ok { requeue := true })

/-- `handleRunning` when the pod has run to its end. -/
def podSucceeded (task : AgentTask) : OperatorM Outcome := do
  if task.status.phase ≠ .completed then
    let time ← now
    let _ ← updateStatus (task.withStatus fun s => { s with
      phase := .completed
      progress := 100
      completedAt := some time
      message := "Task completed" })
    updateAgentStatus task.spec.agentRef task.ns
  pure (.ok {})

/-- The text occurs in the message. -/
def containsText (message text : String) : Bool := decide (text.toList <:+: message.toList)

/-- Why an attempt failed, from the answer of its worker. -/
def failureReason (status : WorkerStatus) : String :=
  if status.rateLimited then "rate_limited"
  else if containsText status.message "rate limit" ∨ containsText status.message "429" then
    "rate_limited"
  else "worker_failed"

/-- What every answer of the worker puts into the status first. -/
def polledStatus (status : WorkerStatus) (s : AgentTaskStatus) : AgentTaskStatus := { s with
  progress := status.progress
  message := status.message
  pullRequestURL :=
    if status.pullRequestURL ≠ "" then status.pullRequestURL else s.pullRequestURL }

/-- The end of `handleRunning`: write the status and ask for what its phase needs. -/
def finishRunning (task : AgentTask) : OperatorM Outcome := do
  match ← updateStatus task with
  | .error err => pure (.error err)
  | .ok _ =>
    if task.status.phase = .running then pure (.ok { requeueAfter := requeueAfter })
    else if task.status.phase = .failed then pure (.ok { requeue := true })
    else pure (.ok {})

/-- `handleRunning` once the worker has answered. -/
def handleWorkerStatus (task : AgentTask) (podIP : String) (status : WorkerStatus) :
    OperatorM Outcome := do
  let task := task.withStatus (polledStatus status)
  if status.phase = "Succeeded" ∨ status.phase = "Completed" then
    let time ← now
    let task := task.withStatus fun s => { s with
      phase := .waitingForPR
      progress := 100
      completedAt := some time
      message := "Task completed — PR marked ready for review, awaiting human action"
      prState := "open" }
    finalizeWorker podIP task.name
    updateAgentStatus task.spec.agentRef task.ns
    finishRunning task
  else if status.phase = "Incomplete" then
    let task := task.withStatus fun s => { s with
      phase := .failed
      lastFailureReason := "incomplete"
      message :=
        if status.incompleteReason ≠ "" then "Task incomplete: " ++ status.incompleteReason
        else "Task incomplete: agent could not make meaningful changes" }
    updateAgentStatus task.spec.agentRef task.ns
    finishRunning task
  else if status.phase = "Failed" then
    let task := task.withStatus fun s => { s with
      phase := .failed
      message := status.message
      lastFailureReason := failureReason status }
    updateAgentStatus task.spec.agentRef task.ns
    finishRunning task
  else
    finishRunning task

/-- `handleRunning` once the pod has been read. -/
def watchPod (task : AgentTask) : Except ApiError Pod → OperatorM Outcome
  | .error err =>
    if err.reason = .notFound then podFailure task "Worker pod not found" "pod_disappeared"
    else pure (.ok { requeueAfter := requeueAfter })
  | .ok pod =>
    match pod.phase with
    | .failed => podFailure task "Worker pod failed" "pod_failed"
    | .succeeded => podSucceeded task
    | .running =>
      if pod.podIP = "" then pure (.ok { requeueAfter := requeueAfter })
      else do
        match ← queryWorkerStatus pod.podIP task.name with
        | .error _ => pure (.ok { requeueAfter := requeueAfter })
        | .ok status => handleWorkerStatus task pod.podIP status
    | _ => pure (.ok { requeueAfter := requeueAfter })

def handleRunning (task : AgentTask) : OperatorM Outcome := do
  watchPod task (← getPod task.podKey)

/-- The end of `handleWaitingForPR`. -/
def finishWaiting (task : AgentTask) : OperatorM Outcome := do
  match ← updateStatus task with
  | .error err => pure (.error err)
  | .ok _ =>
    updateAgentStatus task.spec.agentRef task.ns
    if task.status.phase = .waitingForPR then pure (.ok { requeueAfter := prPollInterval })
    else pure (.ok {})

/-- A human has merged or closed the PR: graduate the memory, tear the pod down
and only then write the status. -/
def concludePR (task : AgentTask) (podIP : String) (phase : Phase) (message : String) :
    OperatorM Outcome := do
  let task := task.withStatus fun s => { s with phase := phase, message := message }
  graduateWorker podIP task.name
  cleanupWorkerPod task.status.workerPod task.ns
  finishWaiting task

def handlePRStatus (task : AgentTask) (podIP : String) (prStatus : PRStatusResponse) :
    OperatorM Outcome :=
  let task := task.withStatus fun s => { s with prState := prStatus.state }
  if prStatus.merged then concludePR task podIP .merged "PR merged by reviewer"
  else if prStatus.state = "closed" then
    concludePR task podIP .closed "PR closed by reviewer without merge"
  else
    finishWaiting (task.withStatus fun s => { s with
      phase := .waitingForPR
      message := "PR open (draft=" ++ toString prStatus.draft ++ "), awaiting human review" })

/-- `handleWaitingForPR` without a pull request to wait for. -/
def closeWithoutPR (task : AgentTask) : OperatorM Outcome := do
  let _ ← updateStatus (task.withStatus fun s =>
    { s with phase := .closed, message := "No PR was created" })
  cleanupWorkerPod task.status.workerPod task.ns
  updateAgentStatus task.spec.agentRef task.ns
  pure (.ok {})

/-- `handleWaitingForPR` without a worker to ask. -/
def closeUntracked (task : AgentTask) : OperatorM Outcome := do
  let _ ← updateStatus (task.withStatus fun s =>
    { s with phase := .closed, message := "Worker pod unavailable, cannot track PR" })
  updateAgentStatus task.spec.agentRef task.ns
  pure (.ok {})

/-- `handleWaitingForPR` once the pod has been read. -/
def trackPR (task : AgentTask) : Except ApiError Pod → OperatorM Outcome
  | .error _ => closeUntracked task
  | .ok pod =>
    if pod.phase ≠ .running ∨ pod.podIP = "" then closeUntracked task
    else do
      match ← queryPRStatus pod.podIP task.name with
      | .error _ => pure (.ok { requeueAfter := prPollInterval })
      | .ok prStatus => handlePRStatus task pod.podIP prStatus

def handleWaitingForPR (task : AgentTask) : OperatorM Outcome := do
  if task.status.pullRequestURL = "" then closeWithoutPR task
  else trackPR task (← getPod task.podKey)

def maxRetries (spec : AgentTaskSpec) : Int :=
  if spec.maxRetries = 0 then defaultMaxRetries else spec.maxRetries

/-- `handleFailed` with a retry left: back to Pending, on the same branch and PR. -/
def retryTask (task : AgentTask) : OperatorM Outcome := do
  -- below MaxRetries, so the increment cannot wrap around
  let retryCount := task.status.retryCount + 1
  match ← updateStatus (task.withStatus fun s => { s with
    retryCount := retryCount
    phase := .pending
    progress := 0
    workerPod := ""
    startedAt := none
    completedAt := none
    message := "Retrying (attempt " ++ toString retryCount ++ "/" ++
      toString (maxRetries task.spec) ++ ") on same branch: " ++ s.lastFailureReason }) with
  | .error err => pure (.error err)
  | .ok _ => pure (.ok { requeueAfter := int64 (retryBackoff * retryCount) })

/-- `handleFailed` with no retry left. -/
def giveUp (task : AgentTask) : OperatorM Outcome := do
  let _ ← updateStatus (task.withStatus fun s => { s with
    message := "Permanently failed after " ++ toString s.retryCount ++ " attempts: " ++
      s.lastFailureReason ++ ". PR left open for human review." })
  pure (.ok {})

def handleFailed (task : AgentTask) : OperatorM Outcome := do
  if task.status.workerPod ≠ "" then
    cleanupWorkerPod task.status.workerPod task.ns
  if task.status.retryCount < maxRetries task.spec then retryTask task else giveUp task

/-- The handler of the task's phase. -/
def dispatch (task : AgentTask) : OperatorM Outcome := do
  match task.status.phase with
  | .unset =>
    match ← updateStatus (task.withStatus fun s => { s with phase := .pending, progress := 0 }) with
    | .error err => pure (.error err)
    | .ok _ => pure (.ok { requeue := true })
  | .pending => handlePending task
  | .running => handleRunning task
  | .failed => handleFailed task
  | .completed | .waitingForPR => handleWaitingForPR task
  | .merged | .closed => pure (.ok {})
  | .unknown _ =>
    let _ ← updateStatus (task.withStatus fun s => { s with phase := .pending })
    pure (.ok { requeue := true })

def reconcile (req : NamespacedName) : OperatorM Outcome := do
  match ← getTask req with
  | .error err => if err.reason = .notFound then pure (.ok {}) else pure (.error err)
  | .ok task => dispatch task

end BulletFarm.Operator
