import BulletFarm.Operator.Types

/-!
# The payload of a worker pod

`mergeSkills`, the JSON handed to the worker, and the pod that carries it.
-/

namespace BulletFarm.Operator

open Go

set_option autoImplicit false

/-- One pass of either loop of `mergeSkills`: the names seen and the list so far. -/
def mergeSkill (acc : List String × Slice String) (s : String) : List String × Slice String :=
  if s ∈ acc.1 then acc else (s :: acc.1, acc.2.append s)

def mergeSkills (defaults taskSkills : Slice String) : Slice String :=
  (taskSkills.items.foldl mergeSkill (defaults.items.foldl mergeSkill ([], none))).2

structure TaskPayload where
  taskID : String
  agentRef : String
  repository : String
  prompt : String
  description : String
  targetBranch : String
  skills : Slice String
  isRetry : Bool
  prURL : String
deriving DecidableEq, Repr

def TaskPayload.toJson (p : TaskPayload) : Json.Value :=
  .obj [("task_id", .str p.taskID), ("agent_ref", .str p.agentRef),
    ("repository", .str p.repository), ("prompt", .str p.prompt),
    ("description", .str p.description), ("target_branch", .str p.targetBranch),
    ("skills", marshalStrings p.skills), ("is_retry", .bool p.isRetry), ("pr_url", .str p.prURL)]

def targetBranch (task : AgentTask) : String :=
  if task.spec.targetBranch = "" then "task-" ++ task.name else task.spec.targetBranch

/-- The payload `handlePending` builds. -/
def taskPayload (task : AgentTask) (agent : Agent) : TaskPayload where
  taskID := task.name
  agentRef := task.spec.agentRef
  repository := agent.spec.repository
  prompt := task.spec.prompt
  description := task.spec.description
  targetBranch := targetBranch task
  skills := mergeSkills agent.spec.defaultSkills task.spec.skills
  isRetry := decide (task.status.retryCount > 0)
  prURL := task.status.pullRequestURL

def workerPort : Nat := 8000

def workerPodName (taskName : String) (retryCount : Int) : String :=
  if retryCount > 0 then "worker-" ++ taskName ++ "-r" ++ toString retryCount
  else "worker-" ++ taskName

def orDefault (s default : String) : String := if s = "" then default else s

def buildWorkerPod (task : AgentTask) (agent : Agent) (payloadJSON : String) : Pod where
  name := workerPodName task.name task.status.retryCount
  ns := task.ns
  labels := [("agents.bulletfarm.io/task-name", task.name),
    ("agents.bulletfarm.io/agent-name", task.spec.agentRef), ("app", "bulletfarm-worker")]
  controller := none
  image := agent.spec.workerImage
  env := [⟨"TASK_PAYLOAD", .value payloadJSON⟩,
    ⟨"BULLETFARM_ELASTICSEARCH_URL", .value
      (orDefault agent.spec.config.elasticsearchURL "http://elasticsearch-master:9200")⟩,
    ⟨"BULLETFARM_LLM_PROVIDER", .value (orDefault agent.spec.config.llmProvider "openai")⟩,
    ⟨"BULLETFARM_LLM_MODEL", .value (orDefault agent.spec.config.llmModel "gpt-4o-mini")⟩,
    ⟨"BULLETFARM_WORKER_PORT", .value (toString workerPort)⟩,
    ⟨"BULLETFARM_GITHUB_TOKEN", .secretKeyRef "bulletfarm-secrets" "github-token" false⟩,
    ⟨"BULLETFARM_OPENAI_API_KEY", .secretKeyRef "bulletfarm-secrets" "openai-api-key" true⟩,
    ⟨"BULLETFARM_OLLAMA_BASE_URL", .secretKeyRef "bulletfarm-secrets" "ollama-base-url" true⟩]
  phase := .pending
  podIP := ""

end BulletFarm.Operator
