import BulletFarm.Worker.Types

/-!
# The memory store

`memory.py`: the write buffer, and the functions of the store over the calls to
Elasticsearch. Logging is left out.
-/

namespace BulletFarm.Worker

open Interaction Python Json

set_option autoImplicit false

variable {σ : Type}

def taskMemoryIndex : String := "task_memory"

def sharedMemoryIndex : String := "shared_memory"

def fieldType (name type : String) : String × Value := (name, .obj [("type", .str type)])

def mappingOf (fields : List (String × Value)) : Value :=
  .obj [("mappings", .obj [("properties", .obj fields)])]

def taskMemoryMapping : Value :=
  mappingOf [fieldType "task_id" "keyword", fieldType "agent_ref" "keyword",
    fieldType "repository" "keyword", fieldType "prompt" "text", fieldType "output" "text",
    fieldType "skills_used" "keyword", fieldType "phase" "keyword", fieldType "error" "text",
    fieldType "pr_url" "keyword", fieldType "rate_limited" "boolean", fieldType "timestamp" "date"]

def sharedMemoryMapping : Value :=
  mappingOf [fieldType "summary" "text", fieldType "context" "text", fieldType "skills" "keyword",
    fieldType "repository" "keyword", fieldType "timestamp" "date"]

def esQueryTimeoutMs : Nat := 250

def esRetryJitterMs : Nat := 50

/-! ## The calls -/

abbrev indexExists (index : String) : WorkerM σ Bool := .attempt (WorkerOp.indexExists index) id

abbrev createIndex (index : String) (mapping : Value) : WorkerM σ Unit :=
  .attempt (WorkerOp.createIndex index mapping) id

abbrev indexDocument (index : String) (document : Dict) : WorkerM σ IndexResult :=
  .attempt (WorkerOp.indexDocument index document) id

abbrev search (request : SearchRequest) : WorkerM σ (List Hit) :=
  .attempt (WorkerOp.search request) id

abbrev deleteByQuery (index : String) (query : Value) : WorkerM σ Nat :=
  .attempt (WorkerOp.deleteByQuery index query) id

abbrev helpersBulk (documents : List Dict) : WorkerM σ (Nat × List FailedItem) :=
  .attempt (WorkerOp.bulk documents) id

abbrev now : WorkerM σ Time := ask .now

def term (field value : String) : Value := .obj [("term", .obj [(field, .str value)])]

/-! ## The write buffer -/

structure MemoryWriteBuffer where
  taskID : String
  taskMemoryDocs : List Dict
  sharedMemoryDocs : List Dict
  startTime : Time
  lastFlushTime : Time

namespace MemoryWriteBuffer

def new (taskID : String) (startTime : Time) : MemoryWriteBuffer :=
  ⟨taskID, [], [], startTime, startTime⟩

/-- A document for `task_memory` with its metadata. -/
def taskDocument (b : MemoryWriteBuffer) (stamp : Time) (doc : Dict) : Dict :=
  Dict.update [("_index", .str taskMemoryIndex), ("_op_type", .str "index"),
    ("task_id", .str b.taskID), ("timestamp", .str (isoformat stamp))] doc

/-- The fields of a document stay what they are. -/
theorem lookup_taskDocument (b : MemoryWriteBuffer) (stamp : Time) {doc : Dict} {key : String}
    {v : Value} (h : Value.lookup key doc = some v) :
    Value.lookup key (b.taskDocument stamp doc) = some v := by
  unfold taskDocument
  rw [Dict.lookup_update, h]
  rfl

/-- A document for `shared_memory` with its metadata. -/
def sharedDocument (stamp : Time) (doc : Dict) : Dict :=
  Dict.update [("_index", .str sharedMemoryIndex), ("_op_type", .str "index"),
    ("timestamp", .str (isoformat stamp))] doc

def addTaskMemory (b : MemoryWriteBuffer) (stamp : Time) (doc : Dict) : MemoryWriteBuffer :=
  { b with taskMemoryDocs := b.taskMemoryDocs ++ [b.taskDocument stamp doc] }

def addSharedMemory (b : MemoryWriteBuffer) (stamp : Time) (doc : Dict) : MemoryWriteBuffer :=
  { b with sharedMemoryDocs := b.sharedMemoryDocs ++ [sharedDocument stamp doc] }

def maxRuntimeSeconds : Int := 300

/-- `should_flush_intermediate`, given its two readings of the clock. -/
def shouldFlushIntermediate (b : MemoryWriteBuffer) (elapsed sinceFlush : Time) : Bool :=
  decide (elapsed - b.startTime > seconds maxRuntimeSeconds) &&
    decide (sinceFlush - b.lastFlushTime > seconds maxRuntimeSeconds)

def allDocs (b : MemoryWriteBuffer) : List Dict := b.taskMemoryDocs ++ b.sharedMemoryDocs

end MemoryWriteBuffer

/-! ## Searching -/

def isRetryableError (exc : Exc) : Bool :=
  exc.kind ∈ [ExcKind.connectionTimeout, .connectionError, .transportError]

/-- A hit as a search returns it: its source, its score, and the index it came from. -/
structure Found where
  source : Dict
  score : Option Rat
  sourceIndex : String

def mergeAndRankResults (taskResults sharedResults : List Hit) (limit : Int) : List Found :=
  let all := (taskResults.map fun h => Found.mk h.source h.score "task_memory") ++
    sharedResults.map fun h => Found.mk h.source h.score "shared_memory"
  upTo limit (all.mergeSort fun a b => b.score.getD 0 ≤ a.score.getD 0)

/-- Scores that are not numbers cannot be compared. -/
def rankResults (taskResults sharedResults : List Hit) (limit : Int) : WorkerM σ (List Found) :=
  let all := taskResults ++ sharedResults
  if 2 ≤ all.length ∧ ∃ h ∈ all, h.score = none then
    throw (typeError "'<' not supported between instances of 'NoneType' and 'float'")
  else pure (mergeAndRankResults taskResults sharedResults limit)

def ensureIndex (index : String) (mapping : Value) : WorkerM σ Unit := do
  try
    let there ← indexExists index
    if !there then createIndex index mapping
  catch _ => pure ()

def ensureIndices : WorkerM σ Unit := do
  ensureIndex taskMemoryIndex taskMemoryMapping
  ensureIndex sharedMemoryIndex sharedMemoryMapping

def fullQuery (queryText : String) (skills : Option (List String)) (fields : List String)
    (skillsField : String) : Value :=
  let must := [Value.obj [("multi_match", .obj [("query", .str queryText), ("fields", strings fields)])]]
  match skills with
  | some (s :: ss) => .obj [("bool", .obj [("must",
      .arr (must ++ [.obj [("terms", .obj [(skillsField, strings (s :: ss))])]]))])]
  | _ => .obj [("bool", .obj [("must", .arr must)])]

/-- A search of one index, when it is enabled. -/
def searchIf (enabled : Bool) (index : String) (query : Value) (limit : Int) :
    WorkerM σ (List Hit) :=
  if enabled then
    search { index := index, query := query, size := limit, timeout := some (toString esQueryTimeoutMs ++ "ms") }
  else pure []

/-- Searches the enabled indices with the two queries and ranks what they give. -/
def executeQuery (taskQuery sharedQuery : Value) (limit : Int)
    (searchTaskMemory searchSharedMemory : Bool) : WorkerM σ (List Found) := do
  ensureIndices
  let taskResults ← searchIf searchTaskMemory taskMemoryIndex taskQuery limit
  let sharedResults ← searchIf searchSharedMemory sharedMemoryIndex sharedQuery limit
  rankResults taskResults sharedResults limit

def executeFullQuery (queryText : String) (skills : Option (List String)) (limit : Int)
    (searchTaskMemory searchSharedMemory : Bool) : WorkerM σ (List Found) :=
  executeQuery (fullQuery queryText skills ["prompt", "output", "methodology"] "skills_used")
    (fullQuery queryText skills ["summary", "context"] "skills") limit
    searchTaskMemory searchSharedMemory

def executeBm25Query (queryText : String) (limit : Int)
    (searchTaskMemory searchSharedMemory : Bool) : WorkerM σ (List Found) :=
  executeQuery (.obj [("match", .obj [("prompt", .str queryText)])])
    (.obj [("match", .obj [("summary", .str queryText)])]) limit
    searchTaskMemory searchSharedMemory

/-- A delay in milliseconds. -/
def addJitter (baseDelayMs maxJitterMs : Nat) : WorkerM σ Nat := do
  let jitter ← ask (.randint 0 maxJitterMs)
  pure (baseDelayMs + jitter.val)

def unifiedSearch (queryText : String) (skills : Option (List String)) (limit : Int)
    (searchTaskMemory searchSharedMemory : Bool) : WorkerM σ (List Found) :=
  if !searchTaskMemory && !searchSharedMemory then pure []
  else
    tryCatch (executeFullQuery queryText skills limit searchTaskMemory searchSharedMemory) fun exc =>
      if !isRetryableError exc then pure []
      else
        tryCatch (do
          let delay ← addJitter 50 esRetryJitterMs
          ask (.sleep delay)
          executeFullQuery queryText skills limit searchTaskMemory searchSharedMemory) fun _ =>
            tryCatch (executeBm25Query queryText limit searchTaskMemory searchSharedMemory) fun _ =>
              pure []

/-- The tool of this name searches the shared memory. -/
def searchSharedKnowledge (queryText : String) (skills : Option (List String)) (limit : Int) :
    WorkerM σ (List Found) :=
  unifiedSearch queryText skills limit false true

/-- Newest first. -/
def byTimestamp : Value := .arr [.obj [("timestamp", .str "desc")]]

def taskHistoryRequest (agentRef : String) (limit : Int) : SearchRequest where
  index := taskMemoryIndex
  query := term "agent_ref" agentRef
  size := limit
  sort := some byTimestamp

def getTaskHistory (agentRef : String) (limit : Int) : WorkerM σ (List Dict) := do
  try
    ensureIndex taskMemoryIndex taskMemoryMapping
    let hits ← search (taskHistoryRequest agentRef limit)
    pure (hits.map Hit.source)
  catch _ => pure []

/-! ## Graduation -/

def sharedKnowledge (summary context : String) (skills repository : Value) (time : Time) : Dict :=
  [("summary", .str summary), ("context", .str context), ("skills", skills),
    ("repository", repository), ("timestamp", .str (isoformat time))]

def storeSharedKnowledge (summary context : String) (skills repository : Value) :
    WorkerM σ IndexResult := do
  ensureIndex sharedMemoryIndex sharedMemoryMapping
  let time ← now
  indexDocument sharedMemoryIndex (sharedKnowledge summary context skills repository time)

def deleteTaskMemory (taskID : String) : WorkerM σ Nat := do
  try
    ensureIndex taskMemoryIndex taskMemoryMapping
    deleteByQuery taskMemoryIndex (term "task_id" taskID)
  catch _ => pure 0

/-- The search of `get_task_result`. -/
def taskResultRequest (taskID : String) : SearchRequest where
  index := taskMemoryIndex
  query := .obj [("bool", .obj [("must", .arr [term "task_id" taskID, term "phase" "Succeeded"])])]
  size := 1
  sort := some byTimestamp

def getTaskResult (taskID : String) : WorkerM σ (Option Dict) := do
  try
    ensureIndex taskMemoryIndex taskMemoryMapping
    let hits ← search (taskResultRequest taskID)
    pure (hits.head?.map Hit.source)
  catch _ => pure none

/-- What graduation makes of a task's result: summary, context, skills and repository. -/
structure Knowledge where
  summary : String
  context : String
  skills : Value
  repository : Value

def graduationKnowledge (result : Dict) (prState : String) : Except Exc Knowledge := do
  let methodology := Dict.get result "methodology" (.str "")
  let output := Dict.get result "output" (.str "")
  let prompt := Dict.get result "prompt" (.str "")
  let repo := Dict.get result "repository" (.str "")
  let skills := Dict.get result "skills_used" (.arr [])
  let tools := Dict.get result "tools_called" (.arr [])
  let files := Dict.get result "files_modified" (.arr [])
  let outcome := if prState = "merged" then "merged" else "closed without merge"
  let shortPrompt ← slice 100 prompt
  let filesCount ← len files
  let toolsCount ← len tools
  let summary := "Task '" ++ str shortPrompt ++ "' on " ++ str repo ++ " — PR " ++ outcome ++
    ". Modified " ++ toString filesCount ++ " files using " ++ toString toolsCount ++ " tools."
  let toolsText ← if truthy tools then joinValue ", " tools else pure "none"
  let filesText ← if truthy files then do joinValue ", " (← slice 20 files) else pure "none"
  let shortOutput ← slice 800 output
  let context := "Outcome: PR " ++ outcome ++ "\nMethodology: " ++ str methodology ++
    "\nTools used: " ++ toolsText ++ "\nFiles modified: " ++ filesText ++ "\nAgent output: " ++
    str shortOutput
  pure ⟨summary, context, skills, repo⟩

/-- `graduate_to_shared` once the result has been looked up. -/
def graduateResult (taskID prState : String) : Option Dict → WorkerM σ Bool
  | none | some [] => do
    let _ ← deleteTaskMemory taskID
    pure false
  | some taskResult => do
    let k ← Effect.ofExcept (graduationKnowledge taskResult prState)
    let _ ← storeSharedKnowledge k.summary k.context k.skills k.repository
    let _ ← deleteTaskMemory taskID
    pure true

def graduateToShared (taskID prState : String) : WorkerM σ Bool := do
  graduateResult taskID prState (← getTaskResult taskID)

/-! ## Bulk writing -/

inductive BulkError where
  | item (failed : FailedItem)
  | exception (error : String)

structure BulkWriteResult where
  successCount : Nat
  failedCount : Nat
  errors : List BulkError

/-- The buffer is left as it is. -/
def bulkWrite (b : MemoryWriteBuffer) : WorkerM σ BulkWriteResult := do
  ensureIndices
  if b.allDocs.isEmpty then pure ⟨0, 0, []⟩
  else
    try
      let (successCount, failedItems) ← helpersBulk b.allDocs
      pure ⟨successCount, failedItems.length, failedItems.map .item⟩
    catch exc => pure ⟨0, b.allDocs.length, [.exception exc.text]⟩

end BulletFarm.Worker
