import BulletFarm.Worker.Ending
import BulletFarm.Worker.NothingStaged

/-!
# The tools that a success records

A success records the tools that the kept messages name, and shares its knowledge if one
of them edits. The stream says which tools have been started; whether the two agree is a
matter of the last message that the run has kept.
-/

namespace BulletFarm.Worker

open Interaction Python Json

set_option autoImplicit false

/-! ## The tools of the agent -/

/-- The document of the success records exactly these tools, and there is knowledge for
everyone exactly if one of them edits. -/
def Faithful (started : List String) (b : MemoryWriteBuffer) : Prop :=
  ∃ doc recorded, b.taskMemoryDocs.filter hasOutcome = [doc] ∧
    Value.lookup "phase" doc = some (.str TaskPhase.succeeded.value) ∧
    Value.lookup "tools_called" doc = some (strings recorded) ∧
    (∀ tool, tool ∈ recorded ↔ tool ∈ started) ∧
    (b.sharedMemoryDocs ≠ [] ↔ ∃ tool ∈ started, tool ∈ skillTools)

section Documents
variable {taskID : String} {tools started : List String} {b : MemoryWriteBuffer} {s : RunState}

theorem Unended.filter (h : Unended taskID b) : b.taskMemoryDocs.filter hasOutcome = [] := by
  apply List.filter_eq_nil_iff.mpr
  intro doc hdoc
  rw [(h.tasks doc hdoc).hasOutcome]
  simp

theorem Unended.succeeded (h : Unended taskID s.buffer) (stamp : Time) {doc : Dict}
    (hphase : Value.lookup "phase" doc = some (.str TaskPhase.succeeded.value))
    (hcalled : Value.lookup "tools_called" doc = some (strings tools)) :
    (∃ added, (s.addTask stamp doc).buffer.taskMemoryDocs.filter hasOutcome = [added] ∧
      Value.lookup "phase" added = some (.str TaskPhase.succeeded.value) ∧
      Value.lookup "tools_called" added = some (strings tools)) ∧
    (s.addTask stamp doc).buffer.sharedMemoryDocs = [] := by
  refine ⟨⟨s.buffer.taskDocument stamp doc, ?_, s.buffer.lookup_taskDocument stamp hphase,
    s.buffer.lookup_taskDocument stamp hcalled⟩, h.shared⟩
  have hadded : (s.addTask stamp doc).buffer.taskMemoryDocs =
      s.buffer.taskMemoryDocs ++ [s.buffer.taskDocument stamp doc] := rfl
  have houtcome : hasOutcome (s.buffer.taskDocument stamp doc) = true := by
    unfold hasOutcome
    rw [s.buffer.lookup_taskDocument stamp hphase]
    rfl
  rw [hadded, List.filter_append, h.filter, List.filter_cons_of_pos houtcome]
  rfl

end Documents

/-! ## A run with staged changes -/

section Success
variable {Path Blob : Type} {site : Site Path Blob} {w : Place Path Blob} {s : RunState}
  {request : TaskRequest} {repoInfo : RepoInfo}

/-- The buffer has checkpoints only. -/
def Waiting (request : TaskRequest) (s : RunState) : Prop := Unended request.taskID s.buffer

end Success

section Run
variable {Path Blob : Type} {site : Site Path Blob} {w w' : Place Path Blob} {request : TaskRequest}
  {tr : List (Event WorkerOp.Resp)} {r : Except Exc TaskStatus} {s' : RunState}

end Run

/-! ## Two agents -/

end BulletFarm.Worker
