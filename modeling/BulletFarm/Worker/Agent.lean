import BulletFarm.Worker.GitHub
import BulletFarm.Worker.Memory

/-!
# Running a task

`agent.py`: `run_task` from the clone to the final flush, with its two other
endings. What survives an exception is the state: the write buffer, the URL of
the pull request, and what the agent has answered. Logging is left out.
-/

namespace BulletFarm.Worker

open Interaction Python Json

set_option autoImplicit false

/-- The local state of a run. `added` records every document handed to the buffer;
the program does not read it. -/
structure RunState where
  buffer : MemoryWriteBuffer
  added : List Dict
  prURL : String
  result : Option (List Message)

abbrev RunM : Type → Type := WorkerM RunState

/-! ## Steps -/

variable {σ : Type}

/-- A subprocess whose exit status is looked at by the caller. -/
def runProcess (cmd : List String) (cwd : Option String) : WorkerM σ CompletedProcess :=
  .attempt (WorkerOp.run cmd cwd) id

/-- With `check=True`. -/
def checked (cmd : List String) (r : Except Exc CompletedProcess) : Except Exc CompletedProcess :=
  match r with
  | .error exc => .error exc
  | .ok p => if p.returncode = 0 then .ok p else .error (calledProcessError cmd p.returncode)

def runChecked (cmd : List String) (cwd : Option String) : WorkerM σ CompletedProcess :=
  .attempt (WorkerOp.run cmd cwd) (checked cmd)

def writeFile (path content : String) : WorkerM σ Unit :=
  .attempt (WorkerOp.writeFile path content) id

/-- `notify` says whether there is a progress callback. -/
def report (notify : Bool) (taskID : String) (percent : Int) (message : String) : WorkerM σ Unit :=
  if notify then ask (.progress taskID percent message) else pure ()

def RunState.addTask (s : RunState) (stamp : Time) (doc : Dict) : RunState :=
  { s with
    buffer := s.buffer.addTaskMemory stamp doc
    added := s.added ++ [s.buffer.taskDocument stamp doc] }

def RunState.addShared (s : RunState) (stamp : Time) (doc : Dict) : RunState :=
  { s with
    buffer := s.buffer.addSharedMemory stamp doc
    added := s.added ++ [MemoryWriteBuffer.sharedDocument stamp doc] }

def addTaskMemory (doc : Dict) : RunM Unit := do
  let stamp ← now
  modify fun s => s.addTask stamp doc

def addSharedMemory (doc : Dict) : RunM Unit := do
  let stamp ← now
  modify fun s => s.addShared stamp doc

def flush : RunM BulkWriteResult := do
  let s ← get
  bulkWrite s.buffer

def rateLimitMarkers : List String := ["rate limit", "429", "too many requests", "quota"]

def isRateLimit (exc : Exc) : Bool := rateLimitMarkers.any fun m => contains (lower exc.text) m

/-! ## Cloning and context -/

def workspaceOf (request : TaskRequest) : String := "/workspace/" ++ request.taskID

def branchName (request : TaskRequest) : String :=
  if request.targetBranch ≠ "" then request.targetBranch else "task-" ++ request.taskID

def cloneURL (githubToken : String) (request : TaskRequest) : String :=
  "https://x-access-token:" ++ githubToken ++ "@github.com/" ++ request.repository ++ ".git"

def cloneCommand (githubToken : String) (request : TaskRequest) : List String :=
  if request.isRetry then ["git", "clone", cloneURL githubToken request, workspaceOf request]
  else ["git", "clone", "--depth=1", cloneURL githubToken request, workspaceOf request]

/-- The branch of the task in the fresh clone. -/
def checkOut (request : TaskRequest) : WorkerM σ Unit := do
  let cwd := some (workspaceOf request)
  if request.isRetry then
    let fetchResult ← runProcess ["git", "fetch", "origin", branchName request] cwd
    if fetchResult.returncode = 0 then
      let _ ← runChecked ["git", "checkout", branchName request] cwd
    else
      let _ ← runChecked ["git", "checkout", "-b", branchName request] cwd
  else
    let _ ← runChecked ["git", "checkout", "-b", branchName request] cwd

def configure (request : TaskRequest) : WorkerM σ Unit := do
  let cwd := some (workspaceOf request)
  let _ ← runChecked ["git", "config", "user.email", "agent@bulletfarm.io"] cwd
  let _ ← runChecked ["git", "config", "user.name", "BulletFarm Agent"] cwd

/-- One line of the memory context. -/
def contextLine (r : Found) : Except Exc String :=
  if r.sourceIndex = "task_memory" then do
    let prompt ← slice 80 (Dict.get r.source "prompt" (.str ""))
    pure ("- [Task] " ++ str prompt ++ " (Phase: " ++ str (Dict.get r.source "phase" (.str "")) ++ ")\n")
  else pure ("- [Shared] " ++ str (Dict.get r.source "summary" (.str "")) ++ "\n")

def memoryContext (results : List Found) : Except Exc String :=
  match results with
  | [] => pure ""
  | _ => results.foldlM (fun acc r => do pure (acc ++ (← contextLine r)))
      "\n\nRelevant knowledge from past tasks:\n"

def gatherMemory (request : TaskRequest) : WorkerM σ String :=
  if request.skills ≠ [] ∨ request.prompt ≠ "" then do
    let skills := if request.skills ≠ [] then some request.skills else none
    let results ← unifiedSearch request.prompt skills 10 true true
    Effect.ofExcept (memoryContext results)
  else pure ""

def coreTools : List String := ["read_file", "list_files", "search_shared_knowledge"]

def skillRegistry : String → Option String
  | "code-edit" => some "code_edit"
  | "testing" => some "test_generator"
  | "test-generator" => some "test_generator"
  | "graphql" => some "graphql_debug"
  | "graphql-debug" => some "graphql_debug"
  | "documentation" => some "doc_update"
  | "doc-update" => some "doc_update"
  | _ => none

def workspaceTools (request : TaskRequest) : List String :=
  coreTools ++ request.skills.filterMap skillRegistry

def enrichedPrompt (request : TaskRequest) (repoInfo : RepoInfo) (context files : String) : String :=
  "You are working on a local clone of " ++ repoInfo.name ++ ".\n" ++
    "The repo is cloned at: " ++ workspaceOf request ++ "\n" ++
    "Base branch: " ++ repoInfo.defaultBranch ++ "\n" ++
    "Task branch: " ++ branchName request ++ "\n" ++
    "Skills: " ++ join ", " request.skills ++ "\n" ++ context ++ "\n\n" ++
    "Files in repo:\n" ++ files ++ "\n\n" ++ "Task: " ++ request.prompt ++ "\n\n" ++
    "IMPORTANT: Use the code_edit tool with FULL paths starting with " ++ workspaceOf request ++
    "/ to make changes. Create new files by passing old_content as empty string ''. " ++
    "Make real, meaningful changes to accomplish the task."

/-! ## The agent -/

def maxLLMRetries : Nat := 3

def maxAgentSteps : Nat := 50

def checkpointDoc (request : TaskRequest) (stepCount : Nat) : Dict :=
  [("agent_ref", .str request.agentRef), ("repository", .str request.repository),
    ("prompt", .str request.prompt),
    ("output", .str ("Task in progress (step " ++ toString stepCount ++ ")")),
    ("skills_used", strings request.skills), ("phase", .str "Running"),
    ("intermediate_checkpoint", .bool true)]

/-- One event of the stream; the value is the number of tool calls so far. -/
def handleEvent (request : TaskRequest) (stepCount : Nat) : AgentEvent → RunM Nat
  | .toolStart _ elapsed sinceFlush => do
    let s ← get
    if s.buffer.shouldFlushIntermediate elapsed sinceFlush then
      addTaskMemory (checkpointDoc request (stepCount + 1))
      let _ ← flush
    pure (stepCount + 1)
  | .chatModelEnd (some output) => do
    modify fun s => { s with result := some [output] }
    pure stepCount
  | _ => pure stepCount

def handleEvents (request : TaskRequest) : Nat → List AgentEvent → RunM Unit
  | _, [] => pure ()
  | stepCount, event :: rest => do
    let stepCount ← handleEvent request stepCount event
    handleEvents request stepCount rest

/-- One attempt at the stream, and a plain invocation if it brought no answer. -/
def runAttempt (request : TaskRequest) (prompt : String) : RunM Unit := do
  let stream ← ask (.streamEvents prompt (workspaceTools request))
  handleEvents request 0 stream.events
  match stream.error with
  | some exc => throw exc
  | none =>
    let s ← get
    if s.result.isNone then
      let messages ← Effect.attempt (WorkerOp.invoke prompt (workspaceTools request)) id
      modify fun s => { s with result := some messages }

def recursionMessage : Message where
  content := .text ("Agent hit the maximum step limit (" ++ toString maxAgentSteps ++
    " steps) without completing the task.")

/-- `for attempt in range(max_llm_retries)`, with so many attempts remaining. -/
def runAgent (notify : Bool) (request : TaskRequest) (prompt : String) : Nat → RunM Unit
  | 0 => pure ()
  | remaining + 1 =>
    tryCatch (runAttempt request prompt) fun exc =>
      let attempt := maxLLMRetries - (remaining + 1)
      if contains (lower exc.text) "recursion" then
        modify fun s => { s with result := some [recursionMessage] }
      else if isRateLimit exc ∧ attempt < maxLLMRetries - 1 then do
        let waitSecs := 2 ^ attempt * 15
        report notify request.taskID 45 ("Rate limited, retrying in " ++ toString waitSecs ++ "s")
        ask (.asyncSleep waitSecs)
        runAgent notify request prompt remaining
      else throw exc

def contentText : Content → String
  | .text s => s
  | .parts printed => printed

def outputText (messages : List Message) : String :=
  match messages.getLast? with
  | some m => contentText m.content
  | none => "No output from agent"

def toolsCalled (messages : List Message) : List String :=
  messages.flatMap fun m => m.toolCalls ++
    match m.name with
    | some name => if name ≠ "" then [name] else []
    | none => []

def incompleteMarkers : List String :=
  ["i cannot", "i can't", "i'm unable", "could not", "please verify", "you may need to", "manually",
    "i was unable", "not able to", "failed to create", "would you like me to", "shall i",
    "let me know", "i don't have access", "permission denied"]

def taskIncomplete (hasChanges : Bool) (output : String) (uniqueTools : List String) : Bool :=
  !hasChanges && (incompleteMarkers.any (fun marker => contains (lower output) marker) ||
    !(["code_edit", "test_generator", "doc_update"].any fun t => t ∈ uniqueTools))

/-! ## Endings -/

def orNone (default : String) (xs : List String) : String :=
  if xs ≠ [] then join ", " xs else default

def incompleteReason (output : String) (uniqueTools : List String) : String :=
  "The agent was unable to complete this task. No code changes were produced. Tools called: " ++
    orNone "none" uniqueTools ++ ". Agent response: " ++ take 300 output

def incompleteAnalysis (request : TaskRequest) (output : String) (uniqueTools : List String) : String :=
  "# Task: " ++ request.prompt ++ "\n\n## Status: INCOMPLETE\n\n" ++
    "The agent was unable to complete this task.\n\n## Agent Analysis\n\n" ++ take 3000 output ++
    "\n\n## Tools Called\n\n" ++ orNone "None" uniqueTools ++ "\n"

def incompleteBody (request : TaskRequest) (output : String) : String :=
  "## ⚠️ Incomplete Task\n\nThe agent was unable to complete this task.\n\n" ++
    "### Agent Analysis\n\n" ++ take 1000 output ++ "\n\n---\n**Task:** " ++ request.prompt ++
    "\n**Agent:** " ++ request.agentRef ++ "\n**Task ID:** " ++ request.taskID ++
    "\n**Status:** INCOMPLETE\n"

def incompleteComment (output : String) : String :=
  "## 🤖 BulletFarm Agent — Task Incomplete\n\nNo meaningful code changes were produced.\n\n" ++
    "### Agent's Response\n\n> " ++ take 500 output ++ "\n\n### Recommendation\n\n" ++
    "- Close this PR or retry with a more specific prompt\n"

def incompleteDoc (request : TaskRequest) (output : String) (uniqueTools : List String)
    (prURL : String) : Dict :=
  [("agent_ref", .str request.agentRef), ("repository", .str request.repository),
    ("prompt", .str request.prompt), ("output", .str (take 2000 output)),
    ("skills_used", strings request.skills), ("tools_called", strings uniqueTools),
    ("has_code_changes", .bool false),
    ("incomplete_reason", .str (incompleteReason output uniqueTools)),
    ("phase", .str TaskPhase.incomplete.value), ("pr_url", .str prURL)]

/-- The pull request of a retry, or a new one. -/
def incompletePR (request : TaskRequest) (repoInfo : RepoInfo) (output : String) :
    WorkerM σ String :=
  if request.prURL ≠ "" then pure request.prURL
  else createDraftPR request.repository (branchName request) repoInfo.defaultBranch
    ("[Agent] [INCOMPLETE] " ++ take 65 request.prompt) (incompleteBody request output)
    request.taskID request.agentRef

def handleIncomplete (notify : Bool) (request : TaskRequest) (repoInfo : RepoInfo) (output : String)
    (uniqueTools : List String) : RunM TaskStatus := do
  let cwd := some (workspaceOf request)
  report notify request.taskID 90 "Task incomplete — recording reason"
  writeFile (workspaceOf request ++ "/.bulletfarm-incomplete.md")
    (incompleteAnalysis request output uniqueTools)
  let _ ← runChecked ["git", "add", "-A"] cwd
  let _ ← runChecked ["git", "commit", "-m",
    "chore: incomplete task analysis for " ++ request.taskID] cwd
  let _ ← runChecked ["git", "push", "-u", "origin", branchName request] cwd
  let prURL ← incompletePR request repoInfo output
  let _ ← commentOnPR prURL (incompleteComment output)
  addTaskMemory (incompleteDoc request output uniqueTools prURL)
  let _ ← flush
  let reason := incompleteReason output uniqueTools
  pure {
    taskID := request.taskID
    phase := .incomplete
    progress := 100
    message := "Task incomplete: " ++ take 300 reason
    pullRequestURL := prURL
    incompleteReason := reason }

def commitMessage (request : TaskRequest) : String :=
  "feat: " ++ take 72 request.prompt ++ "\n\nAutomated by BulletFarm agent.\nTask: " ++ request.taskID

/-- The files of the last commit; none if git cannot tell. -/
def filesModified (request : TaskRequest) : WorkerM σ (List String) :=
  tryCatch (do
    let diffFiles ← runProcess ["git", "diff", "--name-only", "HEAD~1"] (some (workspaceOf request))
    if diffFiles.returncode = 0 then pure ((splitLines (strip diffFiles.stdout)).filter (· ≠ ""))
    else pure []) fun _ => pure []

def fileList (files : List String) : String :=
  join "" (files.map fun f => "- `" ++ f ++ "`\n")

def prBody (request : TaskRequest) (output : String) (files : List String) : String :=
  "## Summary\n\n" ++ take 1000 output ++ "\n\n### Changes\n\n" ++ fileList files ++
    "\n---\n**Task:** " ++ request.prompt ++ "\n**Agent:** " ++ request.agentRef ++
    "\n**Skills:** " ++ join ", " request.skills ++ "\n**Task ID:** " ++ request.taskID ++ "\n"

/-- Comments on the pull request of a retry, or opens a new one. -/
def createOrUpdatePR (request : TaskRequest) (repoInfo : RepoInfo) (output : String)
    (files : List String) : RunM Unit :=
  if request.prURL ≠ "" then do
    modify fun s => { s with prURL := request.prURL }
    let _ ← commentOnPR request.prURL
      ("## ✅ Retry succeeded\n\nNew commits pushed.\n\n### Files modified\n" ++ fileList files)
  else do
    let url ← createDraftPR request.repository (branchName request) repoInfo.defaultBranch
      ("[Agent] " ++ take 80 request.prompt) (prBody request output files) request.taskID
      request.agentRef
    modify fun s => { s with prURL := url }

def methodology (request : TaskRequest) (uniqueTools files : List String) : String :=
  "Cloned repo, created branch '" ++ branchName request ++ "', ran LLM agent with " ++
    toString (workspaceTools request).length ++ " tools, called " ++ toString uniqueTools.length ++
    " unique tools, modified " ++ toString files.length ++
    " files, committed real changes, pushed and created draft PR."

def taskMemoryDoc (request : TaskRequest) (output : String) (uniqueTools files : List String)
    (prURL : String) : Dict :=
  [("agent_ref", .str request.agentRef), ("repository", .str request.repository),
    ("prompt", .str request.prompt), ("output", .str (take 2000 output)),
    ("skills_used", strings request.skills), ("tools_called", strings uniqueTools),
    ("files_modified", strings files), ("branch", .str (branchName request)),
    ("has_code_changes", .bool true), ("methodology", .str (methodology request uniqueTools files)),
    ("phase", .str TaskPhase.succeeded.value), ("pr_url", .str prURL)]

def sharedMemoryDoc (request : TaskRequest) (output : String) (uniqueTools files : List String) :
    Dict :=
  [("summary", .str ("Task '" ++ take 100 request.prompt ++ "' on " ++ request.repository ++
      " — Succeeded. Modified " ++ toString files.length ++ " files using " ++
      toString uniqueTools.length ++ " tools.")),
    ("context", .str ("Methodology: " ++ methodology request uniqueTools files ++
      "\nTools used: " ++ join ", " uniqueTools ++ "\nFiles modified: " ++
      join ", " (files.take 20) ++ "\nAgent output: " ++ take 800 output)),
    ("skills", strings request.skills), ("repository", .str request.repository)]

def skillTools : List String := ["code_edit", "test_generator", "doc_update", "graphql_debug"]

def shouldWriteToSharedMemory (taskStatus : String) (hasCodeChanges : Bool)
    (toolsCalled : List String) : Bool :=
  taskStatus ∈ ["Succeeded", "success"] && hasCodeChanges && toolsCalled.any (· ∈ skillTools)

def finishSucceeded (notify : Bool) (request : TaskRequest) (repoInfo : RepoInfo) (output : String)
    (uniqueTools : List String) : RunM TaskStatus := do
  let cwd := some (workspaceOf request)
  report notify request.taskID 75 "Committing and pushing changes"
  let _ ← runChecked ["git", "commit", "-m", commitMessage request] cwd
  let _ ← runChecked ["git", "push", "-u", "origin", branchName request] cwd
  report notify request.taskID 85 "Creating draft PR"
  let files ← filesModified request
  createOrUpdatePR request repoInfo output files
  report notify request.taskID 95 "Buffering results in memory"
  let s ← get
  addTaskMemory (taskMemoryDoc request output uniqueTools files s.prURL)
  if shouldWriteToSharedMemory TaskPhase.succeeded.value true uniqueTools then
    addSharedMemory (sharedMemoryDoc request output uniqueTools files)
  report notify request.taskID 98 "Flushing memory to Elasticsearch"
  let _ ← flush
  pure {
    taskID := request.taskID
    phase := .succeeded
    progress := 100
    message := take 500 output
    pullRequestURL := s.prURL }

def failureDoc (request : TaskRequest) (exc : Exc) : Dict :=
  [("agent_ref", .str request.agentRef), ("repository", .str request.repository),
    ("prompt", .str request.prompt), ("error", .str exc.text),
    ("skills_used", strings request.skills), ("phase", .str TaskPhase.failed.value),
    ("rate_limited", .bool (isRateLimit exc))]

/-- The document of a failure and a flush, whatever becomes of them. -/
def recordFailure (request : TaskRequest) (exc : Exc) : RunM Unit := do
  try
    addTaskMemory (failureDoc request exc)
    let _ ← flush
  catch _ => pure ()

def handleFailure (request : TaskRequest) (exc : Exc) : RunM TaskStatus := do
  recordFailure request exc
  let s ← get
  pure {
    taskID := request.taskID
    phase := .failed
    message := take 500 ("Agent error: " ++ exc.text)
    pullRequestURL := s.prURL
    rateLimited := isRateLimit exc }

/-! ## The whole run -/

/-- Everything after the clone. -/
def workOn (notify : Bool) (request : TaskRequest) : RunM TaskStatus := do
  let cwd := some (workspaceOf request)
  checkOut request
  configure request
  report notify request.taskID 20 "Gathering context"
  let repoInfo ← getRepoInfo request.repository
  let _ ← getTaskHistory request.agentRef 5
  let context ← gatherMemory request
  let listing ← runProcess ["find", ".", "-type", "f", "-not", "-path", "./.git/*"] cwd
  report notify request.taskID 30 "Running LLM agent"
  let prompt := enrichedPrompt request repoInfo context (take 3000 listing.stdout)
  report notify request.taskID 40 "Agent executing"
  runAgent notify request prompt maxLLMRetries
  let s ← get
  let messages := s.result.getD []
  let output := outputText messages
  report notify request.taskID 70 "Evaluating changes"
  let _ ← runChecked ["git", "add", "-A"] cwd
  let diffResult ← runProcess ["git", "diff", "--cached", "--stat"] cwd
  let hasChanges := strip diffResult.stdout != ""
  let uniqueTools ← ask (.setOrder (toolsCalled messages))
  if taskIncomplete hasChanges output uniqueTools.val then
    handleIncomplete notify request repoInfo output uniqueTools.val
  else finishSucceeded notify request repoInfo output uniqueTools.val

/-- `run_task` inside its `try`. -/
def attemptTask (githubToken : String) (notify : Bool) (request : TaskRequest) : RunM TaskStatus := do
  report notify request.taskID 10 "Cloning repository"
  let _ ← runChecked (cloneCommand githubToken request) none
  workOn notify request

/-- `run_task` with its buffer made. -/
def runBuffered (githubToken : String) (notify : Bool) (request : TaskRequest) : RunM TaskStatus :=
  tryCatch (attemptTask githubToken notify request) (handleFailure request)

/-- A run starts with an empty buffer and the URL of the request. -/
def RunState.begin (request : TaskRequest) (startTime : Time) : RunState :=
  ⟨.new request.taskID startTime, [], request.prURL, none⟩

def runTask (githubToken : String) (notify : Bool) (request : TaskRequest) :
    Program WorkerOp WorkerOp.Resp (Except Exc TaskStatus × RunState) := do
  let startTime ← .perform .now
  (runBuffered githubToken notify request).start (.begin request startTime)

end BulletFarm.Worker
