import BulletFarm.Worker.Flush

/-!
# The record of how a run ended

Checkpoints say that the run is still going; each ending adds one document with
another phase. Nothing between adding that document and returning the status
raises, so the last bulk write tells what the run reported.
-/

namespace BulletFarm.Worker

open Interaction Python Json

set_option autoImplicit false

/-! ## Documents -/

/-- The document has a phase other than that of a checkpoint. -/
def hasOutcome (doc : Dict) : Bool :=
  match Value.lookup "phase" doc with
  | some (.str phase) => phase != "Running"
  | _ => false

def InIndex (index : String) (doc : Dict) : Prop :=
  Value.lookup "_index" doc = some (.str index)

/-- A document of the task's own memory with the phase that its run was in. -/
structure TaskDoc (taskID phase : String) (doc : Dict) : Prop where
  index : InIndex taskMemoryIndex doc
  id : Value.lookup "task_id" doc = some (.str taskID)
  phase : Value.lookup "phase" doc = some (.str phase)

/-- A document for everyone, without a phase. -/
structure SharedDoc (doc : Dict) : Prop where
  index : InIndex sharedMemoryIndex doc
  phase : Value.lookup "phase" doc = none

section Documents
variable {taskID phase : String} {doc : Dict} {b : MemoryWriteBuffer} {stamp : Time}

theorem TaskDoc.hasOutcome (h : TaskDoc taskID phase doc) : hasOutcome doc = (phase != "Running") := by
  unfold Worker.hasOutcome
  rw [h.phase]

theorem SharedDoc.hasOutcome (h : SharedDoc doc) : hasOutcome doc = false := by
  unfold Worker.hasOutcome
  rw [h.phase]

/-- The metadata a document is given, where the document does not say otherwise. -/
theorem taskDocument_taskDoc (hindex : Value.lookup "_index" doc = none)
    (hid : Value.lookup "task_id" doc = none)
    (hphase : Value.lookup "phase" doc = some (.str phase)) :
    TaskDoc b.taskID phase (b.taskDocument stamp doc) where
  index := by
    unfold InIndex MemoryWriteBuffer.taskDocument
    rw [Dict.lookup_update, hindex]
    rfl
  id := by
    unfold MemoryWriteBuffer.taskDocument
    rw [Dict.lookup_update, hid]
    rfl
  phase := b.lookup_taskDocument stamp hphase

theorem sharedDocument_sharedDoc (hindex : Value.lookup "_index" doc = none)
    (hphase : Value.lookup "phase" doc = none) :
    SharedDoc (MemoryWriteBuffer.sharedDocument stamp doc) where
  index := by
    unfold InIndex MemoryWriteBuffer.sharedDocument
    rw [Dict.lookup_update, hindex]
    rfl
  phase := by
    unfold MemoryWriteBuffer.sharedDocument
    rw [Dict.lookup_update, hphase]
    rfl

end Documents

/-! ## The buffer of a run -/

/-- Checkpoints only: the run has not ended. -/
structure Unended (taskID : String) (b : MemoryWriteBuffer) : Prop where
  named : b.taskID = taskID
  tasks : ∀ doc ∈ b.taskMemoryDocs, TaskDoc taskID "Running" doc
  shared : b.sharedMemoryDocs = []

/-- Checkpoints and one document of the ending, with knowledge for everyone only if the
task has succeeded. -/
structure Ended (taskID : String) (phase : TaskPhase) (b : MemoryWriteBuffer) : Prop where
  ending : phase.value ≠ "Running"
  tasks : ∃ checkpoints doc, b.taskMemoryDocs = checkpoints ++ [doc] ∧
    (∀ checkpoint ∈ checkpoints, TaskDoc taskID "Running" checkpoint) ∧
    TaskDoc taskID phase.value doc
  shared : ∀ doc ∈ b.sharedMemoryDocs, SharedDoc doc ∧ phase = .succeeded

section Buffer
variable {taskID : String} {phase : TaskPhase} {b : MemoryWriteBuffer} {s : RunState}

theorem Unended.begin (request : TaskRequest) (startTime : Time) :
    Unended request.taskID (RunState.begin request startTime).buffer where
  named := rfl
  tasks doc hdoc := by cases hdoc
  shared := rfl

theorem Unended.checkpoint (h : Unended taskID s.buffer) {stamp : Time} {doc : Dict}
    (hdoc : TaskDoc s.buffer.taskID "Running" (s.buffer.taskDocument stamp doc)) :
    Unended taskID (s.addTask stamp doc).buffer where
  named := h.named
  tasks added hadded := by
    rcases List.mem_append.mp hadded with hold | hnew
    · exact h.tasks added hold
    · rw [List.mem_singleton.mp hnew, ← h.named]
      exact hdoc
  shared := h.shared

theorem Unended.end (h : Unended taskID s.buffer) {stamp : Time} {doc : Dict}
    (hover : phase.value ≠ "Running")
    (hdoc : TaskDoc s.buffer.taskID phase.value (s.buffer.taskDocument stamp doc)) :
    Ended taskID phase (s.addTask stamp doc).buffer where
  ending := hover
  tasks := by
    refine ⟨s.buffer.taskMemoryDocs, s.buffer.taskDocument stamp doc, rfl, h.tasks, ?_⟩
    rw [← h.named]
    exact hdoc
  shared shared hshared := by
    have hnone : shared ∈ s.buffer.sharedMemoryDocs := hshared
    rw [h.shared] at hnone
    cases hnone

theorem Ended.addShared (h : Ended taskID .succeeded s.buffer) {stamp : Time} {doc : Dict}
    (hdoc : SharedDoc (MemoryWriteBuffer.sharedDocument stamp doc)) :
    Ended taskID .succeeded (s.addShared stamp doc).buffer where
  ending := h.ending
  tasks := h.tasks
  shared added hadded := by
    rcases List.mem_append.mp hadded with hold | hnew
    · exact h.shared added hold
    · rw [List.mem_singleton.mp hnew]
      exact ⟨hdoc, rfl⟩

theorem Ended.not_empty (h : Ended taskID phase b) : b.allDocs.isEmpty = false := by
  obtain ⟨checkpoints, doc, htasks, _⟩ := h.tasks
  unfold MemoryWriteBuffer.allDocs
  rw [htasks]
  simp

theorem Ended.outcome (h : Ended taskID phase b) :
    ∃ doc, b.allDocs.filter hasOutcome = [doc] ∧
      Value.lookup "phase" doc = some (.str phase.value) := by
  obtain ⟨checkpoints, doc, htasks, hcheckpoints, hdoc⟩ := h.tasks
  refine ⟨doc, ?_, hdoc.phase⟩
  have hnone : checkpoints.filter hasOutcome = [] := by
    apply List.filter_eq_nil_iff.mpr
    intro checkpoint hmem
    rw [(hcheckpoints checkpoint hmem).hasOutcome]
    decide
  have hshared : b.sharedMemoryDocs.filter hasOutcome = [] := by
    apply List.filter_eq_nil_iff.mpr
    intro shared hmem
    rw [(h.shared shared hmem).1.hasOutcome]
    decide
  have hlast : [doc].filter hasOutcome = [doc] := by
    apply List.filter_cons_of_pos
    rw [hdoc.hasOutcome]
    exact bne_iff_ne.mpr h.ending
  unfold MemoryWriteBuffer.allDocs
  rw [htasks, List.filter_append, List.filter_append, hnone, hlast, hshared]
  rfl

theorem Ended.taskDocs (h : Ended taskID phase b) :
    ∀ doc ∈ b.allDocs, InIndex taskMemoryIndex doc →
      Value.lookup "task_id" doc = some (.str taskID) := by
  obtain ⟨checkpoints, last, htasks, hcheckpoints, hlast⟩ := h.tasks
  intro doc hdoc hindex
  rcases List.mem_append.mp hdoc with htask | hshared
  · rw [htasks] at htask
    rcases List.mem_append.mp htask with hcheckpoint | hend
    · exact (hcheckpoints doc hcheckpoint).id
    · rw [List.mem_singleton.mp hend]
      exact hlast.id
  · have hother := (h.shared doc hshared).1.index
    rw [InIndex, hindex] at hother
    simp [taskMemoryIndex, sharedMemoryIndex] at hother

theorem Ended.sharedDocs (h : Ended taskID phase b)
    (hshared : ∃ doc ∈ b.allDocs, InIndex sharedMemoryIndex doc) : phase = .succeeded := by
  obtain ⟨checkpoints, last, htasks, hcheckpoints, hlast⟩ := h.tasks
  obtain ⟨doc, hdoc, hindex⟩ := hshared
  have hdiffer : ¬ InIndex taskMemoryIndex doc := by
    intro hother
    rw [InIndex, hindex] at hother
    simp [taskMemoryIndex, sharedMemoryIndex] at hother
  rcases List.mem_append.mp hdoc with htask | hshared
  · rw [htasks] at htask
    rcases List.mem_append.mp htask with hcheckpoint | hend
    · exact absurd (hcheckpoints doc hcheckpoint).index hdiffer
    · rw [List.mem_singleton.mp hend] at hdiffer
      exact absurd hlast.index hdiffer
  · exact (h.shared doc hshared).2

end Buffer

/-! ## The steps of a run -/

/-- A step before the end. -/
def Goes (taskID : String) (s : RunState) (_ : List (Event WorkerOp.Resp)) (s' : RunState) : Prop :=
  Unended taskID s.buffer → Unended taskID s'.buffer

/-- The last bulk write of the trace has the whole buffer. -/
def HandsOver (tr : List (Event WorkerOp.Resp)) (b : MemoryWriteBuffer) : Prop :=
  (handed tr).getLast? = some b.allDocs

/-- A run that returns has handed over a buffer that has ended as it says; one that
raises has not ended. -/
def Ends (taskID : String) (s : RunState) (tr : List (Event WorkerOp.Resp))
    (r : Except Exc TaskStatus) (s' : RunState) : Prop :=
  Unended taskID s.buffer →
    match r with
    | .ok status => Ended taskID status.phase s'.buffer ∧ HandsOver tr s'.buffer
    | .error _ => Unended taskID s'.buffer

section Steps
variable {taskID : String} {s s' : RunState} {tr tr₂ : List (Event WorkerOp.Resp)}

theorem Goes.composes (taskID : String) : Effect.Composes (Goes taskID) where
  refl _ := id
  trans h₁ h₂ := h₂ ∘ h₁

theorem HandsOver.after {b : MemoryWriteBuffer} (h : HandsOver tr₂ b)
    (tr₁ : List (Event WorkerOp.Resp)) : HandsOver (tr₁ ++ tr₂) b := by
  unfold HandsOver at h ⊢
  rw [handed_append, List.getLast?_append, h]
  rfl

theorem Ends.leads (taskID : String) : Leads (Goes taskID) (Ends taskID) where
  composes := Goes.composes taskID
  raise h := h
  front {s₁ tr₁ s₂ tr₂ r s₃} hgoes hends := by
    intro hunended
    have hend := hends (hgoes hunended)
    cases r with
    | ok status => exact ⟨hend.1, hend.2.after _⟩
    | error exc => exact hend

theorem Makes.goes {ok : WorkerOp → Prop} {α : Type} {m : RunM α} (hm : Makes ok m) :
    Effect.Moves (Goes taskID) m := by
  intro s tr r s' h hunended
  rw [(hm _ _ _ _ h).1]
  exact hunended

theorem flush_goes : Effect.Moves (Goes taskID) flush := by
  intro s tr r s' h hunended
  rw [(flush_ends h).1]
  exact hunended

theorem Ended.flush {phase : TaskPhase} (hended : Ended taskID phase s.buffer)
    {r : Except Exc BulkWriteResult} (h : flush.Ends s tr r s') :
    Ended taskID phase s'.buffer ∧ HandsOver tr s'.buffer := by
  obtain ⟨rfl, hhanded, _⟩ := flush_ends h
  refine ⟨hended, ?_⟩
  unfold HandsOver
  rw [hhanded, hended.not_empty]
  rfl

end Steps

/-! ## The agent -/

section Agent
variable {taskID : String} {request : TaskRequest}

theorem checkpoint_goes (stepCount : Nat) :
    Effect.Moves (Goes taskID) (addTaskMemory (checkpointDoc request stepCount)) := by
  intro s tr r s' h hunended
  obtain ⟨stamp, _, _, rfl⟩ := addTaskMemory_ends h
  apply hunended.checkpoint
  apply taskDocument_taskDoc
  · simp [checkpointDoc, Value.lookup]
  · simp [checkpointDoc, Value.lookup]
  · simp [checkpointDoc, Value.lookup]

theorem runAgent_goes (notify : Bool) (prompt : String) (remaining : Nat) :
    Effect.Moves (Goes taskID) (runAgent notify request prompt remaining) :=
  runAgent_moves (Goes.composes taskID) Makes.goes (fun _ _ => id) checkpoint_goes flush_goes
    notify prompt remaining

end Agent

/-! ## Endings -/

/-- A step after the document of the ending. -/
def StaysEnded (taskID : String) (phase : TaskPhase) (s : RunState) (_ : List (Event WorkerOp.Resp))
    (s' : RunState) : Prop :=
  Ended taskID phase s.buffer → Ended taskID phase s'.buffer

/-- What follows the document of an ending: it never raises. -/
def Closing (taskID : String) (phase : TaskPhase) (s : RunState) (tr : List (Event WorkerOp.Resp))
    (r : Except Exc TaskStatus) (s' : RunState) : Prop :=
  Ended taskID phase s.buffer → ∃ status, r = .ok status ∧ status.phase = phase ∧
    Ended taskID phase s'.buffer ∧ HandsOver tr s'.buffer

section Closing
variable {taskID : String} {phase : TaskPhase} {request : TaskRequest}

theorem Closing.bind {α : Type} {m : RunM α} {f : α → RunM TaskStatus} (hreturns : Effect.Returns m)
    (hm : Effect.Moves (StaysEnded taskID phase) m)
    (hf : ∀ a, Effect.Meets (Closing taskID phase) (f a)) :
    Effect.Meets (Closing taskID phase) (m >>= f) := by
  intro s tr r s' h hended
  obtain ⟨tr₁, tr₂, a, s₁, rfl, h₁, h₂⟩ := hreturns.ends_bind h
  obtain ⟨status, hr, hphase, hended', hhands⟩ := hf a _ _ _ _ h₂ (hm _ _ _ _ h₁ hended)
  exact ⟨status, hr, hphase, hended', hhands.after _⟩

theorem Closing.flush {status : TaskStatus} (hphase : status.phase = phase) :
    Effect.Meets (Closing taskID phase) (do let _ ← Worker.flush; pure status) := by
  intro s tr r s' h hended
  obtain ⟨tr₁, tr₂, _, s₁, rfl, h₁, h₂⟩ := flush_returns.ends_bind h
  obtain ⟨rfl, hr, rfl⟩ := Effect.ends_pure h₂
  rw [List.append_nil]
  obtain ⟨hended', hhands⟩ := hended.flush h₁
  exact ⟨status, hr, hphase, hended', hhands⟩

theorem Closing.ends (phase : TaskPhase) {doc : Dict} {f : Unit → RunM TaskStatus}
    (hover : phase.value ≠ "Running") (hindex : Value.lookup "_index" doc = none)
    (hid : Value.lookup "task_id" doc = none)
    (hphase : Value.lookup "phase" doc = some (.str phase.value))
    (hf : ∀ a, Effect.Meets (Closing taskID phase) (f a)) :
    Effect.Meets (Ends taskID) (addTaskMemory doc >>= f) := by
  intro s tr r s' h hunended
  obtain ⟨tr₁, tr₂, _, s₁, rfl, h₁, h₂⟩ := (addTaskMemory_returns doc).ends_bind h
  obtain ⟨stamp, rfl, _, rfl⟩ := addTaskMemory_ends h₁
  have hended : Ended taskID phase (s.addTask stamp doc).buffer :=
    hunended.end hover (taskDocument_taskDoc hindex hid hphase)
  obtain ⟨status, rfl, hstatus, hended', hhands⟩ := hf _ _ _ _ _ h₂ hended
  dsimp only
  rw [hstatus]
  exact ⟨hended', hhands.after _⟩

theorem handleIncomplete_ends (notify : Bool) (repoInfo : RepoInfo) (output : String)
    (uniqueTools : List String) :
    Effect.Meets (Ends taskID) (handleIncomplete notify request repoInfo output uniqueTools) := by
  have hleads := Ends.leads taskID
  apply hleads.bind (Makes.goes (report_makes Locally.quiet _ _ _ _))
  intro _
  apply hleads.bind (Makes.goes (writeFile_makes Locally.quiet _ _))
  intro _
  apply hleads.bind (Makes.goes (runChecked_makes Locally.quiet _ _))
  intro _
  apply hleads.bind (Makes.goes (runChecked_makes Locally.quiet _ _))
  intro _
  apply hleads.bind (Makes.goes (runChecked_makes Locally.quiet _ _))
  intro _
  apply hleads.bind (Makes.goes (incompletePR_makes _ _ _))
  intro prURL
  apply hleads.bind (Makes.goes (commentOnPR_makes _ _))
  intro _
  apply Closing.ends .incomplete (by decide)
  · simp [incompleteDoc, Value.lookup]
  · simp [incompleteDoc, Value.lookup]
  · simp [incompleteDoc, Value.lookup]
  · exact fun _ => Closing.flush rfl

theorem createOrUpdatePR_goes (repoInfo : RepoInfo) (output : String) (files : List String) :
    Effect.Moves (Goes taskID) (createOrUpdatePR request repoInfo output files) := by
  have hcomposes := Goes.composes taskID
  apply Effect.Moves.ite
  · intro _
    apply Effect.Moves.bind hcomposes
    · exact Effect.Moves.modify fun _ => id
    · intro _
      apply Effect.Moves.bind hcomposes (Makes.goes (commentOnPR_makes _ _))
      exact fun _ => Effect.Moves.pure hcomposes ()
  · intro _
    apply Effect.Moves.bind hcomposes
    · exact Makes.goes (createDraftPR_makes _ _ _ _ _ _ _)
    · exact fun url => Effect.Moves.modify fun _ => id

/-- Knowledge for everyone is added after the document of a success only. -/
theorem addSharedMemory_stays (output : String) (uniqueTools files : List String) :
    Effect.Moves (StaysEnded taskID .succeeded)
      (addSharedMemory (sharedMemoryDoc request output uniqueTools files)) := by
  intro s tr r s' h hended
  obtain ⟨stamp, _, _, rfl⟩ := addSharedMemory_ends h
  apply hended.addShared
  apply sharedDocument_sharedDoc
  · simp [sharedMemoryDoc, Value.lookup]
  · simp [sharedMemoryDoc, Value.lookup]

theorem finishSucceeded_ends (notify : Bool) (repoInfo : RepoInfo) (output : String)
    (uniqueTools : List String) :
    Effect.Meets (Ends taskID) (finishSucceeded notify request repoInfo output uniqueTools) := by
  have hleads := Ends.leads taskID
  have hreport : Effect.Moves (StaysEnded taskID .succeeded)
      (report notify request.taskID 98 "Flushing memory to Elasticsearch") := by
    intro s tr r s' h hended
    rw [(report_makes Locally.quiet _ _ _ _ _ _ _ _ h).1]
    exact hended
  apply hleads.bind (Makes.goes (report_makes Locally.quiet _ _ _ _))
  intro _
  apply hleads.bind (Makes.goes (runChecked_makes Locally.quiet _ _))
  intro _
  apply hleads.bind (Makes.goes (runChecked_makes Locally.quiet _ _))
  intro _
  apply hleads.bind (Makes.goes (report_makes Locally.quiet _ _ _ _))
  intro _
  apply hleads.bind (Makes.goes (filesModified_makes Locally.quiet _))
  intro files
  apply hleads.bind (createOrUpdatePR_goes _ _ _)
  intro _
  apply hleads.bind (Makes.goes (report_makes Locally.quiet _ _ _ _))
  intro _
  apply hleads.bind (Effect.Moves.get hleads.composes)
  intro s
  apply Closing.ends .succeeded (by decide)
  · simp [taskMemoryDoc, Value.lookup]
  · simp [taskMemoryDoc, Value.lookup]
  · simp [taskMemoryDoc, Value.lookup]
  · intro _
    have hlast : Effect.Meets (Closing taskID .succeeded) (do
        report notify request.taskID 98 "Flushing memory to Elasticsearch"
        let _ ← flush
        pure {
          taskID := request.taskID
          phase := .succeeded
          progress := 100
          message := take 500 output
          pullRequestURL := s.prURL }) :=
      Closing.bind (report_returns _ _ _ _) hreport fun _ => Closing.flush rfl
    apply Effect.Meets.ite _ hlast
    exact Closing.bind (addSharedMemory_returns _) (addSharedMemory_stays _ _ _) fun _ => hlast

/-- The handler of a failure ends the run whatever was added before it. -/
theorem handleFailure_ends_failed (exc : Exc) :
    Effect.Meets (Ends taskID) (handleFailure request exc) := by
  intro s tr r s' h hunended
  obtain ⟨status, rfl, hfailed⟩ := handleFailure_failed h
  obtain ⟨stamp, tr', _, rfl, hflush⟩ := handleFailure_ends h
  have hended : Ended taskID .failed (s.addTask stamp (failureDoc request exc)).buffer := by
    apply hunended.end (by decide)
    apply taskDocument_taskDoc
    · simp [failureDoc, Value.lookup]
    · simp [failureDoc, Value.lookup]
    · simp [failureDoc, Value.lookup]
  obtain ⟨hended', hhands⟩ := hended.flush hflush
  dsimp only
  rw [hfailed]
  exact ⟨hended', hhands.after [_]⟩

end Closing

/-! ## The whole run -/

section Run
variable {githubToken : String} {notify : Bool} {request : TaskRequest}
  {tr : List (Event WorkerOp.Resp)} {r : Except Exc TaskStatus} {s' : RunState}

theorem runBuffered_ends (githubToken : String) (notify : Bool) (request : TaskRequest) :
    Effect.Meets (Ends request.taskID) (runBuffered githubToken notify request) := by
  have hleads := Ends.leads request.taskID
  have hattempt : Effect.Meets (Ends request.taskID) (attemptTask githubToken notify request) := by
    apply hleads.attemptTask githubToken Makes.goes
    apply hleads.workOn Makes.goes (runAgent_goes notify)
    · exact handleIncomplete_ends notify
    · exact finishSucceeded_ends notify
  intro s tr r s' h
  rcases Effect.ends_tryCatch h with ⟨status, rfl, h₁⟩ | ⟨tr₁, tr₂, exc, s₁, rfl, h₁, h₂⟩
  · exact hattempt _ _ _ _ h₁
  · exact hleads.front (hattempt _ _ _ _ h₁) (handleFailure_ends_failed exc _ _ _ _ h₂)

/-- The last bulk write of a run has one document with an outcome, which is the phase of
the status; its task documents carry the id of the task, and it has knowledge for
everyone only if the task has succeeded. -/
theorem ending_recorded (h : (runTask githubToken notify request).Runs tr (r, s')) :
    ∃ status docs doc, r = .ok status ∧ (handed tr).getLast? = some docs ∧
      docs.filter hasOutcome = [doc] ∧ Value.lookup "phase" doc = some (.str status.phase.value) ∧
      (∀ d ∈ docs, InIndex taskMemoryIndex d →
        Value.lookup "task_id" d = some (.str request.taskID)) ∧
      ((∃ d ∈ docs, InIndex sharedMemoryIndex d) → status.phase = .succeeded) := by
  obtain ⟨startTime, rest, rfl, hrun⟩ := Program.runs_call.mp h
  obtain ⟨status, rfl⟩ : ∃ status, r = .ok status :=
    Effect.Returns.tryCatch handleFailure_returns _ _ _ _ hrun
  obtain ⟨hended, hhands⟩ :=
    runBuffered_ends githubToken notify request _ _ _ _ hrun (Unended.begin request startTime)
  obtain ⟨doc, hone, hphase⟩ := hended.outcome
  have hlast := hhands.after [⟨.now, startTime⟩]
  exact ⟨status, _, doc, rfl, hlast, hone, hphase, hended.taskDocs, hended.sharedDocs⟩

/-- The run of a task that is done, and whose agent has used a tool that edits code. -/
theorem ending_recorded_demo : ∃ status docs doc, (demoRun (seconds 300)).2.1.1 = .ok status ∧
    (handed (demoRun (seconds 300)).1).getLast? = some docs ∧ docs.filter hasOutcome = [doc] ∧
    Value.lookup "phase" doc = some (.str status.phase.value) ∧
    (∀ d ∈ docs, InIndex taskMemoryIndex d →
      Value.lookup "task_id" d = some (.str demoRequest.taskID)) ∧
    ((∃ d ∈ docs, InIndex sharedMemoryIndex d) → status.phase = .succeeded) :=
  ending_recorded (runs_play _ _ _)

end Run

end BulletFarm.Worker
