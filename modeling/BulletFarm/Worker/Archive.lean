import BulletFarm.Interaction.Monitored
import BulletFarm.Worker.Ending
import BulletFarm.Worker.Routes

/-!
# One Elasticsearch for all workers

The workers of all tasks share their two indices. Runs and graduations of any tasks take
place at the same time, any of their calls may fail, before or after it was carried out or
in the middle of it, and searches lag behind. The shared memory only grows, and by what runs
and graduations have to add to it; a document of a task is removed by a graduation of that
task only.
-/

namespace BulletFarm.Worker

open Interaction Python Json

set_option autoImplicit false

/-! ## The documents that a run hands over -/

/-- The documents that a run of the task gives to bulk calls. -/
inductive Written (request : TaskRequest) : Dict → Prop where
  | task {phase : String} {doc : Dict} : TaskDoc request.taskID phase doc → Written request doc
  | shared (stamp : Time) (output : String) (tools files : List String) :
      Written request
        (MemoryWriteBuffer.sharedDocument stamp (sharedMemoryDoc request output tools files))

/-- A buffer of this task, with documents that a run of it writes. -/
structure Holds (request : TaskRequest) (b : MemoryWriteBuffer) : Prop where
  named : b.taskID = request.taskID
  written : ∀ d ∈ b.allDocs, Written request d

/-- Neither stores a document by itself nor deletes any. -/
def Tidy : WorkerOp → Prop
  | .indexDocument _ _ | .deleteByQuery _ _ => False
  | _ => True

/-- A call that a run of the task may make. -/
def RunCall (request : TaskRequest) : WorkerOp → Prop
  | .bulk docs => ∀ d ∈ docs, Written request d
  | o => Tidy o

/-- A step of a run of the task. -/
def Fills (request : TaskRequest) (s : RunState) (tr : List (Event WorkerOp.Resp)) (s' : RunState) :
    Prop :=
  Holds request s.buffer → Holds request s'.buffer ∧ ∀ e ∈ tr, RunCall request e.1

section Run
variable {request : TaskRequest}

theorem Fills.composes (request : TaskRequest) : Effect.Composes (Fills request) where
  refl s h := ⟨h, fun e he => by cases he⟩
  trans h₁ h₂ h := by
    obtain ⟨hs, htr⟩ := h₁ h
    obtain ⟨hs', htr'⟩ := h₂ hs
    refine ⟨hs', fun e he => ?_⟩
    rcases List.mem_append.mp he with he | he
    · exact htr e he
    · exact htr' e he

theorem Makes.writes {α : Type} {m : RunM α} (hm : Makes (RunCall request) m) :
    Effect.Moves (Fills request) m := by
  intro s tr r s' h hholds
  obtain ⟨hs, htr⟩ := hm _ _ _ _ h
  exact ⟨hs ▸ hholds, htr⟩

/-- A step of a run, and what follows it. -/
theorem Fills.bind {α β : Type} {m : RunM α} {f : α → RunM β} (hm : Effect.Moves (Fills request) m)
    (hf : ∀ a, Effect.Moves (Fills request) (f a)) : Effect.Moves (Fills request) (m >>= f) :=
  Effect.Moves.bind (Fills.composes request) hm hf

theorem Prepares.runCall {o : WorkerOp} (h : Prepares o) : RunCall request o := by
  cases o <;> trivial

theorem Attends.runCall {o : WorkerOp} (h : Attends o) : RunCall request o := by
  cases o <;> trivial

theorem OnGitHub.runCall {o : WorkerOp} (h : OnGitHub o) : RunCall request o := by
  cases o <;> trivial

theorem Locally.runCall {o : WorkerOp} (h : Locally o) : RunCall request o := h.prepares.runCall

theorem Converses.runCall {o : WorkerOp} (h : Converses o) : RunCall request o := h.prepares.runCall

theorem Fills.leads (request : TaskRequest) :
    Leads (Fills request) fun s tr _ s' => Fills request s tr s' where
  composes := Fills.composes request
  raise h := h
  front h₁ h₂ := (Fills.composes request).trans h₁ h₂

end Run

/-! ## The calls of a graduation -/

/-- A call that a graduation of the task may make when it has found these documents. -/
def GraduationCall (taskID : String) (found : List Dict) : WorkerOp → Prop
  | .bulk _ => False
  | .search request => request = taskResultRequest taskID
  | .indexDocument index doc => index = sharedMemoryIndex ∧ KnowledgeOf found doc
  | .deleteByQuery index query => index = taskMemoryIndex ∧ query = term "task_id" taskID
  | _ => True

/-- The documents that a call has found. -/
def foundBy : (o : WorkerOp) → o.Resp → List Dict
  | .search _, .ok hits => hits.map Hit.source
  | _, _ => []

/-- What a graduation of the task does, with the documents found so far. -/
def graduating (taskID : String) : Monitor WorkerOp WorkerOp.Resp (List Dict) where
  allows := GraduationCall taskID
  next found o r := found ++ foundBy o r

section Graduation
variable {σ : Type} {taskID prState : String}

/-- Calls that find nothing and are always allowed. -/
theorem Makes.graduates {ok : WorkerOp → Prop} {α : Type} {m : WorkerM σ α} (hm : Makes ok m)
    (hok : ∀ found o, ok o → GraduationCall taskID found o) (P : List Dict → Prop)
    (hP : ∀ found more, P found → P (found ++ more)) :
    Effect.Obeys (graduating taskID) P m (fun _ => P) fun _ => P :=
  Effect.Obeys.keeps hm.calls fun hfound ho => ⟨hok _ _ ho, fun _ => hP _ _ hfound⟩

end Graduation

/-! ## The store -/

/-- What a worker does with the memory of a task. -/
inductive Job where
  | run (githubToken : String) (notify : Bool) (request : TaskRequest)
  | graduate (statuses : String → Option TaskStatus) (taskID : String)

namespace Job

/-- The calls of the job, with the documents that its searches have found. -/
def monitor : Job → Monitor WorkerOp WorkerOp.Resp (List Dict)
  | .run _ _ request => ⟨fun _ => RunCall request, fun found _ _ => found⟩
  | .graduate _ taskID => graduating taskID

end Job

/-! ## What a call adds and removes -/

theorem lookup_actionSource {key : String} (hkey : key ∉ ["_index", "_op_type"]) (action : Dict) :
    Value.lookup key (actionSource action) = Value.lookup key action := by
  unfold actionSource
  induction action with
  | nil => rfl
  | cons m rest ih =>
    obtain ⟨k, v⟩ := m
    by_cases hk : k ∉ ["_index", "_op_type"]
    · rw [List.filter_cons_of_pos (by simpa using hk), Value.lookup_cons, Value.lookup_cons, ih]
    · have hne : k ≠ key := fun h => hk (h ▸ hkey)
      rw [List.filter_cons_of_neg (by simpa using hk), Value.lookup_cons, ih, if_neg hne, Option.or_none]

section Jobs
variable {ι : Type} (job : ι → Job)

/-- A run tells everyone about its success. -/
def Reported (d : Dict) : Prop :=
  ∃ i githubToken notify request stamp output tools files,
    job i = .run githubToken notify request ∧ d = actionSource
      (MemoryWriteBuffer.sharedDocument stamp (sharedMemoryDoc request output tools files))

/-- A graduation makes the document of a Succeeded document that the task had before. -/
def Distilled (past : List Elastic) (d : Dict) : Prop :=
  ∃ i statuses taskID, job i = .graduate statuses taskID ∧ ∃ es ∈ past,
    KnowledgeOf ((es taskMemoryIndex).filter (succeededOf taskID)) d

/-- Graduations of the task of this document take place. -/
def Retired (d : Dict) : Prop :=
  ∃ i statuses taskID, job i = .graduate statuses taskID ∧ ofTask taskID d = true

/-- Runs of the task of this document take place. -/
def Attested (d : Dict) : Prop :=
  ∃ i githubToken notify request, job i = .run githubToken notify request ∧
    ofTask request.taskID d = true

/-- What the jobs may make of the indices, with the indices as they were before. -/
structure Changes (past : List Elastic) (es es' : Elastic) : Prop where
  shared : ∃ added, es' sharedMemoryIndex = es sharedMemoryIndex ++ added ∧
    ∀ d ∈ added, Reported job d ∨ Distilled job past d
  kept : ∀ d ∈ es taskMemoryIndex, d ∈ es' taskMemoryIndex ∨ Retired job d
  written : ∀ d ∈ es' taskMemoryIndex, d ∈ es taskMemoryIndex ∨ Attested job d

variable {job} {past : List Elastic} {es es' : Elastic}

theorem Changes.refl (es : Elastic) : Changes job past es es where
  shared := ⟨[], (List.append_nil _).symm, fun d hd => by cases hd⟩
  kept _ hd := Or.inl hd
  written _ hd := Or.inl hd

theorem Changes.of_eq (h : es' = es) : Changes job past es es' := by
  rw [h]
  exact .refl es

theorem Changes.trans {es'' : Elastic} (h : Changes job past es es') (h' : Changes job past es' es'') :
    Changes job past es es'' where
  shared := by
    obtain ⟨added, heq, hadded⟩ := h.shared
    obtain ⟨added', heq', hadded'⟩ := h'.shared
    refine ⟨added ++ added', by rw [heq', heq, List.append_assoc], fun d hd => ?_⟩
    rcases List.mem_append.mp hd with hd | hd
    · exact hadded d hd
    · exact hadded' d hd
  kept d hd := (h.kept d hd).elim (h'.kept d) Or.inr
  written d hd := (h'.written d hd).elim (h.written d) Or.inr

theorem add_task_shared (es : Elastic) (doc : Dict) :
    es.add taskMemoryIndex doc sharedMemoryIndex = es sharedMemoryIndex :=
  Elastic.set_other es _ (by decide)

theorem Changes.addTask {doc : Dict} (h : Attested job doc) :
    Changes job past es (es.add taskMemoryIndex doc) where
  shared := ⟨[], by rw [add_task_shared, List.append_nil], fun d hd => by cases hd⟩
  kept d hd := by
    rw [Elastic.add, Elastic.set_same]
    exact Or.inl (List.mem_append_left _ hd)
  written d hd := by
    rw [Elastic.add, Elastic.set_same] at hd
    rcases List.mem_append.mp hd with hd | hd
    · exact Or.inl hd
    · rw [List.mem_singleton.mp hd]
      exact Or.inr h

theorem Changes.addShared {doc : Dict} (h : Reported job doc ∨ Distilled job past doc) :
    Changes job past es (es.add sharedMemoryIndex doc) where
  shared := by
    refine ⟨[doc], add_shared_shared es doc, fun d hd => ?_⟩
    rw [List.mem_singleton.mp hd]
    exact h
  kept d hd := by
    rw [add_shared_task]
    exact Or.inl hd
  written d hd := by
    rw [add_shared_task] at hd
    exact Or.inl hd

/-- The actions of a run, carried out or not. -/
theorem Changes.addActions {i : ι} {githubToken : String} {notify : Bool} {request : TaskRequest}
    (hi : job i = .run githubToken notify request) {sent : List Dict}
    (hsent : ∀ d ∈ sent, Written request d) : Changes job past es (es.addActions sent) := by
  induction sent generalizing es with
  | nil => exact .refl es
  | cons action rest ih =>
    have hrest : Changes job past (es.add (actionIndex action) (actionSource action))
        (es.addActions (action :: rest)) :=
      ih fun d hd => hsent d (List.mem_cons_of_mem _ hd)
    refine Changes.trans ?_ hrest
    cases hsent action List.mem_cons_self with
    | task hdoc =>
      have hindex : actionIndex action = taskMemoryIndex := by
        rw [actionIndex, hdoc.index]
        rfl
      rw [hindex]
      refine .addTask ⟨i, githubToken, notify, request, hi, ?_⟩
      rw [ofTask, hasTerm, lookup_actionSource (by decide), hdoc.id]
      exact decide_eq_true rfl
    | shared stamp output tools files =>
      have hshared : SharedDoc
          (MemoryWriteBuffer.sharedDocument stamp (sharedMemoryDoc request output tools files)) :=
        sharedDocument_sharedDoc (by simp [sharedMemoryDoc, Value.lookup])
          (by simp [sharedMemoryDoc, Value.lookup])
      have hindex : actionIndex (MemoryWriteBuffer.sharedDocument stamp
          (sharedMemoryDoc request output tools files)) = sharedMemoryIndex := by
        rw [actionIndex, hshared.index]
        rfl
      rw [hindex]
      exact .addShared (Or.inl ⟨i, githubToken, notify, request, stamp, output, tools, files, hi, rfl⟩)

/-- A deletion for a graduation of the task, as far as it is carried out. -/
theorem Changes.delete {i : ι} {statuses : String → Option TaskStatus} {taskID : String}
    (hi : job i = .graduate statuses taskID) {deletion : Deletion}
    (h : deletion.Removes taskID es es') : Changes job past es es' where
  shared := ⟨[], by rw [h.shared, List.append_nil], fun d hd => by cases hd⟩
  kept d hd := by
    by_cases hof : ofTask taskID d = true
    · exact Or.inr ⟨i, statuses, taskID, hi, hof⟩
    · exact Or.inl (h.mem_iff.mpr ⟨hd, fun hof' => absurd hof' hof⟩)
  written d hd := Or.inl (h.mem_iff.mp hd).1

/-- The documents found are Succeeded documents that the task had before. -/
def Knows : Job → List Dict → List Elastic → Prop
  | .run _ _ _, _, _ => True
  | .graduate _ taskID, found, past =>
    ∀ d ∈ found, ∃ es ∈ past, d ∈ (es taskMemoryIndex).filter (succeededOf taskID)

theorem Knows.later {found : List Dict} {j : Job} (h : Knows j found past) (es : Elastic) :
    Knows j found (es :: past) := by
  cases j with
  | run githubToken notify request => trivial
  | graduate statuses taskID =>
    intro d hd
    obtain ⟨es', hes', hmem⟩ := h d hd
    exact ⟨es', List.mem_cons_of_mem _ hes', hmem⟩

variable {faults : Faults} {seen : Elastic}

theorem Knows.next {found : List Dict} {j : Job} (h : Knows j found past) {o : WorkerOp} {r : o.Resp}
    (ho : j.monitor.allows found o) (hshows : Indices.Shows ⟨es, past⟩ seen)
    (hans : Elastic.Serve faults seen es o r es') : Knows j (j.monitor.next found o r) (es :: past) := by
  cases j with
  | run githubToken notify request => trivial
  | graduate statuses taskID =>
    intro d hd
    rcases List.mem_append.mp hd with hold | hnew
    · exact Knows.later h es d hold
    · cases o with
      | search request =>
        cases r with
        | ok hits =>
          have hrequest : request = taskResultRequest taskID := ho
          subst hrequest
          obtain ⟨hit, hhit, rfl⟩ := List.mem_map.mp hnew
          obtain ⟨hmem, hsucceeded⟩ := (hans.2.1.2 _ (selects_taskResult taskID)).1 hit hhit
          obtain ⟨before, hbefore, hheld⟩ := hshows _ _ hmem
          exact ⟨before, hbefore, List.mem_filter.mpr ⟨hheld, hsucceeded⟩⟩
        | error exc => cases hnew
      | _ => cases hnew

variable (job) in
/-- Every document of the indices is accounted for, and every one that they have held. -/
structure Accounted (first : Elastic) (past : List Elastic) (es : Elastic) : Prop where
  grows : ∀ es' ∈ first :: past, es' sharedMemoryIndex <+: es sharedMemoryIndex
  shared : ∀ d ∈ es sharedMemoryIndex,
    d ∈ first sharedMemoryIndex ∨ Reported job d ∨ Distilled job past d
  kept : ∀ es' ∈ first :: past, ∀ d ∈ es' taskMemoryIndex, d ∈ es taskMemoryIndex ∨ Retired job d
  written : ∀ d ∈ es taskMemoryIndex, d ∈ first taskMemoryIndex ∨ Attested job d

theorem Distilled.later {d : Dict} (h : Distilled job past d) (es : Elastic) :
    Distilled job (es :: past) d := by
  obtain ⟨i, statuses, taskID, hi, before, hbefore, hknowledge⟩ := h
  exact ⟨i, statuses, taskID, hi, before, List.mem_cons_of_mem _ hbefore, hknowledge⟩

theorem Accounted.step {first : Elastic} (h : Accounted job first past es)
    (hchanges : Changes job past es es') : Accounted job first (es :: past) es' where
  grows := by
    obtain ⟨added, heq, _⟩ := hchanges.shared
    have hstep : es sharedMemoryIndex <+: es' sharedMemoryIndex := ⟨added, heq.symm⟩
    intro before hbefore
    rcases List.mem_cons.mp hbefore with rfl | hbefore
    · exact (h.grows _ List.mem_cons_self).trans hstep
    · rcases List.mem_cons.mp hbefore with rfl | hbefore
      · exact hstep
      · exact (h.grows _ (List.mem_cons_of_mem _ hbefore)).trans hstep
  shared := by
    obtain ⟨added, heq, hadded⟩ := hchanges.shared
    intro d hd
    rw [heq] at hd
    rcases List.mem_append.mp hd with hd | hd
    · exact (h.shared d hd).imp_right (Or.imp_right fun hd => hd.later es)
    · exact Or.inr ((hadded d hd).imp_right fun hd => hd.later es)
  kept := by
    intro before hbefore d hd
    have hnow : d ∈ es taskMemoryIndex ∨ Retired job d := by
      rcases List.mem_cons.mp hbefore with rfl | hbefore
      · exact h.kept _ List.mem_cons_self d hd
      · rcases List.mem_cons.mp hbefore with rfl | hbefore
        · exact Or.inl hd
        · exact h.kept _ (List.mem_cons_of_mem _ hbefore) d hd
    exact hnow.elim (hchanges.kept d) Or.inr
  written d hd := (hchanges.written d hd).elim (h.written d) Or.inr

end Jobs

/-! ## A run, and a graduation of its task -/

end BulletFarm.Worker
