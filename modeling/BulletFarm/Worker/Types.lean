import BulletFarm.Interaction.Effect
import BulletFarm.Worker.Python
import Mathlib.Data.List.Dedup

/-!
# The models of the worker and the calls it makes

The request and response models, and one constructor of `WorkerOp` for every kind
of call to Elasticsearch, to git and the file system, to GitHub, to the agent and
to the clock.
-/

namespace BulletFarm.Worker

open Interaction Python

set_option autoImplicit false

inductive TaskPhase where
  | pending
  | running
  | succeeded
  | incomplete
  | failed
  | waitingForPR
  | merged
  | closed
deriving DecidableEq, Repr

def TaskPhase.value : TaskPhase → String
  | .pending => "Pending"
  | .running => "Running"
  | .succeeded => "Succeeded"
  | .incomplete => "Incomplete"
  | .failed => "Failed"
  | .waitingForPR => "WaitingForPR"
  | .merged => "Merged"
  | .closed => "Closed"

structure TaskRequest where
  taskID : String
  agentRef : String
  repository : String
  prompt : String
  targetBranch : String := "agent-changes"
  skills : List String := []
  isRetry : Bool := false
  prURL : String := ""
deriving DecidableEq, Repr

structure TaskStatus where
  taskID : String
  phase : TaskPhase
  progress : Int := 0
  message : String := ""
  pullRequestURL : String := ""
  rateLimited : Bool := false
  prState : String := ""
  incompleteReason : String := ""
deriving DecidableEq, Repr

structure PRStatusResponse where
  prURL : String := ""
  state : String := ""
  merged : Bool := false
  draft : Bool := false
deriving DecidableEq, Repr

structure GraduateResponse where
  taskMemoryDeleted : Bool := false
  sharedMemoryUpdated : Bool := false
  prState : String := ""
deriving DecidableEq, Repr

/-! ## Elasticsearch -/

structure SearchRequest where
  index : String
  query : Json.Value
  size : Int
  sort : Option Json.Value := none
  timeout : Option String := none

/-- A hit; sorted searches give no score. -/
structure Hit where
  source : Dict
  score : Option Rat

structure IndexResult where
  id : String
  index : String
deriving DecidableEq, Repr

/-- What `helpers.bulk` says of a document it could not index. -/
structure FailedItem where
  index : String
  error : Json.Value
  status : Int

/-! ## The agent -/

/-- The content of a message; one that is not a string comes with its `str`. -/
inductive Content where
  | text (s : String)
  | parts (printed : String)
deriving DecidableEq, Repr

structure Message where
  content : Content
  toolCalls : List String := []
  name : Option String := none
deriving DecidableEq, Repr

/-- An event of the agent's stream. A tool start comes with the two readings of the
clock that the check for an intermediate flush makes there. -/
inductive AgentEvent where
  | toolStart (name : String) (elapsed sinceFlush : Time)
  | toolEnd
  | chatModelEnd (output : Option Message)
  | other (kind : String)
deriving DecidableEq, Repr

/-- The events of one run of the agent, and the exception that ended it, if any. -/
structure AgentStream where
  events : List AgentEvent
  error : Option Exc

/-! ## GitHub -/

structure Repo where
  fullName : String
  defaultBranch : String
  description : Option String
deriving DecidableEq, Repr

structure Label where
  name : String
  color : String
  description : String
deriving DecidableEq, Repr

structure Pull where
  url : String
  number : Nat
  state : String
  merged : Bool
  draft : Bool
deriving DecidableEq, Repr

/-- The names in any order, each once. -/
abbrev SetOrder (names : List String) : Type :=
  { ordered : List String // ordered.Nodup ∧ ∀ x, x ∈ ordered ↔ x ∈ names }

inductive WorkerOp where
  | now
  | sleep (milliseconds : Nat)
  | randint (low high : Nat)
  | indexExists (index : String)
  | createIndex (index : String) (mapping : Json.Value)
  | indexDocument (index : String) (document : Dict)
  | search (request : SearchRequest)
  | deleteByQuery (index : String) (query : Json.Value)
  | bulk (documents : List Dict)
  | run (cmd : List String) (cwd : Option String)
  | writeFile (path content : String)
  | getRepo (name : String)
  | getLabels (repo : String)
  | createLabel (repo : String) (label : Label)
  | createPull (repo base head title body : String)
  | setLabels (repo : String) (number : Nat) (labels : List String)
  | getPull (repo : String) (number : Nat)
  | createComment (repo : String) (number : Nat) (comment : String)
  | streamEvents (prompt : String) (tools : List String)
  | invoke (prompt : String) (tools : List String)
  | asyncSleep (seconds : Nat)
  | setOrder (names : List String)
  | progress (taskID : String) (percent : Int) (message : String)

namespace WorkerOp

@[reducible] def Resp : WorkerOp → Type
  | now => Time
  | sleep _ => Unit
  | randint low high => { n : Nat // low ≤ high → low ≤ n ∧ n ≤ high }
  | indexExists _ => Except Exc Bool
  | createIndex _ _ => Except Exc Unit
  | indexDocument _ _ => Except Exc IndexResult
  | search _ => Except Exc (List Hit)
  | deleteByQuery _ _ => Except Exc Nat
  | bulk _ => Except Exc (Nat × List FailedItem)
  | run _ _ => Except Exc CompletedProcess
  | writeFile _ _ => Except Exc Unit
  | getRepo _ => Except Exc Repo
  | getLabels _ => Except Exc (List String)
  | createLabel _ _ => Except Exc Unit
  | createPull _ _ _ _ _ => Except Exc Pull
  | setLabels _ _ _ => Except Exc Unit
  | getPull _ _ => Except Exc Pull
  | createComment _ _ _ => Except Exc Unit
  | streamEvents _ _ => AgentStream
  | invoke _ _ => Except Exc (List Message)
  | asyncSleep _ => Unit
  | setOrder names => SetOrder names
  | progress _ _ _ => Unit

/-- An answer to every call, with which nothing goes wrong. -/
def benign : (o : WorkerOp) → o.Resp
  | now => (0 : Time)
  | sleep _ => ()
  | randint low _ => ⟨low, fun h => ⟨Nat.le_refl low, h⟩⟩
  | indexExists _ => .ok true
  | createIndex _ _ => .ok ()
  | indexDocument index _ => .ok ⟨"id", index⟩
  | search _ => .ok []
  | deleteByQuery _ _ => .ok 0
  | bulk documents => .ok (documents.length, [])
  | run _ _ => .ok ⟨0, ""⟩
  | writeFile _ _ => .ok ()
  | getRepo name => .ok ⟨name, "main", none⟩
  | getLabels _ => .ok []
  | createLabel _ _ => .ok ()
  | createPull _ _ _ _ _ => .ok ⟨"url", 1, "open", false, true⟩
  | setLabels _ _ _ => .ok ()
  | getPull _ number => .ok ⟨"url", number, "open", false, true⟩
  | createComment _ _ _ => .ok ()
  | streamEvents _ _ => ⟨[], none⟩
  | invoke _ _ => .ok []
  | asyncSleep _ => ()
  | setOrder names => ⟨names.dedup, List.nodup_dedup names, fun _ => List.mem_dedup⟩
  | progress _ _ _ => ()

end WorkerOp

/-- A part of the worker, with a local state `σ`. -/
abbrev WorkerM (σ : Type) : Type → Type := Effect Exc WorkerOp WorkerOp.Resp σ

variable {σ : Type}

abbrev ask (o : WorkerOp) : WorkerM σ o.Resp := Effect.call o

end BulletFarm.Worker
