import BulletFarm.Interaction.Program
import BulletFarm.Operator.Go

/-!
# The objects of the operator and the calls it makes

The custom resources, as far as the controllers read and write them, the worker
pod, the two answers of the worker, and one constructor of `ApiOp` for every
kind of call to the API server, to the worker or to the clock.
-/

namespace BulletFarm.Operator

open Go Interaction

set_option autoImplicit false

/-- Seconds; what `metav1.Now` returns. -/
abbrev Time : Type := Int

/-- Nanoseconds, as `time.Duration` counts them. -/
abbrev Duration : Type := Int

def second : Duration := 1000000000

structure NamespacedName where
  name : String
  ns : String
deriving DecidableEq, Repr

/-- `status.phase` of an AgentTask: `unset` is the empty string, `unknown` any
text the controller has no case for. -/
inductive Phase where
  | unset
  | pending
  | running
  | completed
  | waitingForPR
  | merged
  | closed
  | failed
  | unknown (text : String)
deriving DecidableEq, Repr, Inhabited

structure AgentTaskSpec where
  agentRef : String
  description : String
  prompt : String
  targetBranch : String
  skills : Slice String
  maxRetries : Int
deriving DecidableEq, Repr

/-- The status of a new AgentTask has every field at its default. -/
structure AgentTaskStatus where
  phase : Phase := .unset
  progress : Int := 0
  workerPod : String := ""
  pullRequestURL : String := ""
  prState : String := ""
  startedAt : Option Time := none
  completedAt : Option Time := none
  message : String := ""
  retryCount : Int := 0
  lastFailureReason : String := ""
deriving DecidableEq, Repr

structure AgentTask where
  name : String
  ns : String
  uid : String
  resourceVersion : Nat
  spec : AgentTaskSpec
  status : AgentTaskStatus
deriving DecidableEq, Repr

structure AgentConfig where
  llmProvider : String
  llmModel : String
  elasticsearchURL : String
deriving DecidableEq, Repr

structure AgentSpec where
  repository : String
  workerImage : String
  defaultSkills : Slice String
  config : AgentConfig
deriving DecidableEq, Repr

structure AgentStatus where
  ready : Bool
  activeTasks : Int
  runningTasks : Slice String
  lastReconciled : Option Time
deriving DecidableEq, Repr

structure Agent where
  name : String
  ns : String
  spec : AgentSpec
  status : AgentStatus
deriving DecidableEq, Repr

inductive PodPhase where
  | pending
  | running
  | succeeded
  | failed
  | unknown
deriving DecidableEq, Repr

inductive EnvSource where
  | value (text : String)
  | secretKeyRef (name key : String) (optional : Bool)
deriving DecidableEq, Repr

structure EnvVar where
  name : String
  source : EnvSource
deriving DecidableEq, Repr

/-- A pod with its one container. `controller` is the uid of the controller owner. -/
structure Pod where
  name : String
  ns : String
  labels : List (String × String)
  controller : Option String
  image : String
  env : List EnvVar
  phase : PodPhase
  podIP : String
deriving DecidableEq, Repr

inductive ErrorReason where
  | notFound
  | alreadyExists
  | conflict
  | other
deriving DecidableEq, Repr

/-- An error of the API server or of the way to it. -/
structure ApiError where
  reason : ErrorReason
  text : String
deriving DecidableEq, Repr

/-- What a Reconcile asks of the work queue when it returns no error. -/
structure Result where
  requeue : Bool := false
  requeueAfter : Duration := 0
deriving DecidableEq, Repr

/-- The routes of the worker under `/tasks/{task_id}/`. -/
inductive Endpoint where
  | status
  | prStatus
  | finalize
  | graduate
deriving DecidableEq, Repr

structure WorkerURL where
  podIP : String
  taskID : String
  endpoint : Endpoint
deriving DecidableEq, Repr

/-- A reply of the worker; the body can fail to be read, and need not be JSON. -/
structure HttpReply where
  statusCode : Nat
  body : Except String (Option Json.Value)

inductive ApiOp where
  | getTask (key : NamespacedName)
  | getAgent (key : NamespacedName)
  | getPod (key : NamespacedName)
  | listTasks (ns : String)
  | setControllerReference (owner : AgentTask) (pod : Pod)
  | createPod (pod : Pod)
  | deletePod (key : NamespacedName)
  | updateTaskStatus (task : AgentTask)
  | updateAgentStatus (agent : Agent)
  | httpGet (url : WorkerURL)
  | httpPost (url : WorkerURL)
  | now
deriving DecidableEq

namespace ApiOp

@[reducible] def Resp : ApiOp → Type
  | getTask _ => Except ApiError AgentTask
  | getAgent _ => Except ApiError Agent
  | getPod _ => Except ApiError Pod
  | listTasks _ => Except ApiError (List AgentTask)
  | setControllerReference _ _ => Except ApiError Unit
  | createPod _ => Except ApiError Unit
  | deletePod _ => Except ApiError Unit
  | updateTaskStatus _ => Except ApiError Unit
  | updateAgentStatus _ => Except ApiError Unit
  | httpGet _ => Except String HttpReply
  | httpPost _ => Except String HttpReply
  | now => Time

end ApiOp

/-- A program of the operator. -/
abbrev OperatorM : Type → Type := Program ApiOp ApiOp.Resp

abbrev Outcome : Type := Except ApiError Result

/-! ## The worker's answers as the operator decodes them -/

structure WorkerStatus where
  taskID : String := ""
  phase : String := ""
  progress : Int := 0
  message : String := ""
  pullRequestURL : String := ""
  rateLimited : Bool := false
  incompleteReason : String := ""
deriving DecidableEq, Repr

def WorkerStatus.set (s : WorkerStatus) (key : String) (v : Json.Value) : Option WorkerStatus :=
  if sameKey "task_id" key then
    (stringField v s.taskID).map fun x => { s with taskID := x }
  else if sameKey "phase" key then
    (stringField v s.phase).map fun x => { s with phase := x }
  else if sameKey "progress" key then
    (intField v s.progress).map fun x => { s with progress := x }
  else if sameKey "message" key then
    (stringField v s.message).map fun x => { s with message := x }
  else if sameKey "pull_request_url" key then
    (stringField v s.pullRequestURL).map fun x => { s with pullRequestURL := x }
  else if sameKey "rate_limited" key then
    (boolField v s.rateLimited).map fun x => { s with rateLimited := x }
  else if sameKey "incomplete_reason" key then
    (stringField v s.incompleteReason).map fun x => { s with incompleteReason := x }
  else some s

structure PRStatusResponse where
  prURL : String := ""
  state : String := ""
  merged : Bool := false
  draft : Bool := false
deriving DecidableEq, Repr

def PRStatusResponse.set (s : PRStatusResponse) (key : String) (v : Json.Value) :
    Option PRStatusResponse :=
  if sameKey "pr_url" key then
    (stringField v s.prURL).map fun x => { s with prURL := x }
  else if sameKey "state" key then
    (stringField v s.state).map fun x => { s with state := x }
  else if sameKey "merged" key then
    (boolField v s.merged).map fun x => { s with merged := x }
  else if sameKey "draft" key then
    (boolField v s.draft).map fun x => { s with draft := x }
  else some s

/-- Why a query of the worker came to nothing. -/
inductive QueryError where
  | transport (text : String)
  | reading (text : String)
  | status (code : Nat)
  | unmarshalling
deriving DecidableEq, Repr

/-- The way from a reply to a decoded answer that both queries share. -/
def decodeReply {α : Type} (zero : α) (set : α → String → Json.Value → Option α)
    (reply : Except String HttpReply) : Except QueryError α :=
  match reply with
  | .error text => .error (.transport text)
  | .ok reply =>
    match reply.body with
    | .error text => .error (.reading text)
    | .ok body =>
      if reply.statusCode ≠ 200 then .error (.status reply.statusCode)
      else
        match body.bind (unmarshal zero set) with
        | none => .error .unmarshalling
        | some answer => .ok answer

end BulletFarm.Operator
