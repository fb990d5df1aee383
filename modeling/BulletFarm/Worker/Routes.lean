import BulletFarm.Worker.Graduate

/-!
# The routes for a pull request

`graduate_task` and `get_pr_status` of `main.py`. The documents of a run have what a graduation reads, and
when the calls it depends on work, a graduation does what it is for.
-/

namespace BulletFarm.Worker

open Interaction Python

set_option autoImplicit false

variable {σ : Type}

structure HTTPException where
  statusCode : Nat
  detail : String
deriving DecidableEq, Repr

/-- The state of the pull request for a graduation. -/
def graduationState (pullRequestURL : String) : WorkerM σ String := do
  if pullRequestURL ≠ "" then
    let prInfo ← getPRStatus pullRequestURL
    pure prInfo.state
  else pure "unknown"

/-- `statuses` are the tasks this worker has been given. -/
def graduateTask (statuses : String → Option TaskStatus) (taskID : String) :
    WorkerM σ (Except HTTPException GraduateResponse) :=
  match statuses taskID with
  | none => pure (.error ⟨404, "Task " ++ taskID ++ " not found"⟩)
  | some status => do
    let prState ← graduationState status.pullRequestURL
    let graduated ← graduateToShared taskID prState
    pure (.ok {
      taskMemoryDeleted := graduated
      sharedMemoryUpdated := graduated
      prState := prState })

/-- The `get_pr_status` of `main.py`. -/
def getTaskPRStatus (statuses : String → Option TaskStatus) (taskID : String) :
    WorkerM σ (Except HTTPException PRStatusResponse) :=
  match statuses taskID with
  | none => pure (.error ⟨404, "Task " ++ taskID ++ " not found"⟩)
  | some status =>
    if status.pullRequestURL = "" then pure (.ok {})
    else do
      let prInfo ← getPRStatus status.pullRequestURL
      pure (.ok {
        prURL := status.pullRequestURL
        state := prInfo.state
        merged := prInfo.merged
        draft := prInfo.draft })

/-- The status code of a route's reply; an exception of another kind is an internal error. -/
def replyCode {α : Type} : Except Exc (Except HTTPException α) → Nat
  | .ok (.ok _) => 200
  | .ok (.error e) => e.statusCode
  | .error _ => 500

/-! ## The documents of a run -/

/-- The documents a run adds to its buffer for `task_memory`. -/
inductive RunDocument : Dict → Prop where
  | checkpoint (request : TaskRequest) (stepCount : Nat) : RunDocument (checkpointDoc request stepCount)
  | incomplete (request : TaskRequest) (output : String) (uniqueTools : List String) (prURL : String) :
      RunDocument (incompleteDoc request output uniqueTools prURL)
  | succeeded (request : TaskRequest) (output : String) (uniqueTools files : List String)
      (prURL : String) : RunDocument (taskMemoryDoc request output uniqueTools files prURL)
  | failed (request : TaskRequest) (exc : Exc) : RunDocument (failureDoc request exc)

theorem graduationKnowledge_ok {d : Dict} {prState prompt output : String} {tools files : List String}
    (hprompt : Json.Value.lookup "prompt" d = some (.str prompt))
    (houtput : Json.Value.lookup "output" d = some (.str output))
    (htools : Json.Value.lookup "tools_called" d = some (strings tools))
    (hfiles : Json.Value.lookup "files_modified" d = some (strings files)) :
    ∃ k, graduationKnowledge d prState = .ok k := by
  have hbind : ∀ {α β : Type} (a : α) (f : α → Except Exc β), (Except.ok a >>= f) = f a :=
    fun _ _ => rfl
  have hslice : ∀ n s, slice n (.str s) = .ok (.str (take n s)) := fun _ _ => rfl
  have hlen : ∀ xs, len (strings xs) = .ok (xs.map Json.Value.str).length := fun _ => rfl
  unfold graduationKnowledge Dict.get
  simp only [hprompt, houtput, htools, hfiles, Option.getD_some, joinValue_strings, slice_strings,
    hslice, hlen, hbind]
  split
  · split
    · exact ⟨_, rfl⟩
    · exact ⟨_, rfl⟩
  · split
    · exact ⟨_, rfl⟩
    · exact ⟨_, rfl⟩

theorem RunDocument.graduates {doc : Dict} (h : RunDocument doc) (b : MemoryWriteBuffer) (stamp : Time)
    (hsucceeded : hasTerm "phase" "Succeeded" (b.taskDocument stamp doc) = true) (prState : String) :
    ∃ k, graduationKnowledge (b.taskDocument stamp doc) prState = .ok k := by
  have hphase : ∀ p, Json.Value.lookup "phase" doc = some (.str p) → p = "Succeeded" := by
    intro p hp
    unfold hasTerm at hsucceeded
    rw [b.lookup_taskDocument stamp hp] at hsucceeded
    exact of_decide_eq_true hsucceeded
  cases h with
  | checkpoint request stepCount => exact absurd (hphase _ rfl) (by decide)
  | incomplete request output uniqueTools prURL => exact absurd (hphase _ rfl) (by decide)
  | succeeded request output uniqueTools files prURL =>
    apply graduationKnowledge_ok
    · exact b.lookup_taskDocument stamp rfl
    · exact b.lookup_taskDocument stamp rfl
    · exact b.lookup_taskDocument stamp rfl
    · exact b.lookup_taskDocument stamp rfl
  | failed request exc => exact absurd (hphase _ rfl) (by decide)

/-! ## Graduations that work -/

/-- The document came of a Succeeded document of the task. -/
def KnowledgeOf (docs : List Dict) (d : Dict) : Prop :=
  ∃ succeeded ∈ docs, ∃ prState k time, graduationKnowledge succeeded prState = .ok k ∧
    d = sharedKnowledge k.summary k.context k.skills k.repository time

theorem KnowledgeOf.mono {docs docs' : List Dict} {d : Dict} (h : KnowledgeOf docs d)
    (hsub : ∀ x ∈ docs, x ∈ docs') : KnowledgeOf docs' d := by
  obtain ⟨x, hx, hknowledge⟩ := h
  exact ⟨x, hsub x hx, hknowledge⟩

/-- The deletion is carried out in full, and the search and the store go through if there is a
Succeeded document to graduate. -/
def CanGraduate (taskID : String) (faults : Faults) (es : Elastic) : Prop :=
  faults.delete.Full taskID es ∧ ((∃ d ∈ es taskMemoryIndex, succeededOf taskID d = true) →
    faults.search = .works ∧ faults.store = .works)

/-- Nothing of the task is left, nothing shared is lost, and a Succeeded document has
been graduated if there was one. -/
structure Graduated (taskID : String) (es es' : Elastic) : Prop where
  deleted : ∀ d ∈ es' taskMemoryIndex, ofTask taskID d = false
  shared : ∀ d ∈ es sharedMemoryIndex, d ∈ es' sharedMemoryIndex
  knowledge : (∃ d ∈ es taskMemoryIndex, succeededOf taskID d = true) →
    ∃ d ∈ es' sharedMemoryIndex,
      KnowledgeOf ((es taskMemoryIndex).filter (succeededOf taskID)) d

section Works
variable {taskID prState : String} {s s' : σ} {tr : List (Event WorkerOp.Resp)} {faults : Faults}
  {seen es es' : Elastic}

theorem Deletion.Full.addShared {deletion : Deletion} (h : deletion.Full taskID es) (doc : Dict) :
    deletion.Full taskID (es.add sharedMemoryIndex doc) := by
  intro d hd
  rw [add_shared_task] at hd
  exact h d hd

theorem GraduationEnds.works {d : Dict} {k : Knowledge} (hk : graduationKnowledge d prState = .ok k)
    {r : Except Exc Bool} (h : GraduationEnds taskID prState d faults es tr r es')
    (hstore : faults.store = .works) (hfull : faults.delete.Full taskID es) :
    (∃ b, r = .ok b) ∧ (∀ d ∈ es' taskMemoryIndex, ofTask taskID d = false) ∧
      ∃ time, es' sharedMemoryIndex = es sharedMemoryIndex ++
        [sharedKnowledge k.summary k.context k.skills k.repository time] := by
  cases h with
  | unfit he =>
    rw [hk] at he
    cases he
  | refused _ hrefused =>
    rw [hstore] at hrefused
    cases hrefused
  | lost _ hlost =>
    rw [hstore] at hlost
    cases hlost
  | @stored _ time _ _ _ _ hk' _ _ _ hes' =>
    rw [hk] at hk'
    cases hk'
    exact ⟨⟨true, rfl⟩, hes'.cleared_iff.mpr (hfull.addShared _), time,
      hes'.shared.trans (add_shared_shared es _)⟩

/-- A graduation whose search sees what is stored. -/
theorem graduateToShared_works {r : Except Exc Bool}
    (hend : (graduateToShared taskID prState : WorkerM σ Bool).Ends s tr r s')
    (hes : Threads (Elastic.Serve faults es) es tr es') (hcan : CanGraduate taskID faults es)
    (hdocs : ∀ d ∈ es taskMemoryIndex, succeededOf taskID d = true →
      ∃ k, graduationKnowledge d prState = .ok k) :
    (∃ b, r = .ok b) ∧ Graduated taskID es es' := by
  obtain ⟨hfull, hcan⟩ := hcan
  cases graduateToShared_ends hend hes with
  | nothing hunfound _ hes' =>
    refine ⟨⟨false, rfl⟩, hes'.cleared_iff.mpr hfull, ?_, ?_⟩
    · intro d hd
      rw [hes'.shared]
      exact hd
    · -- without a result there is no Succeeded document
      intro hsucceeded
      exact absurd ⟨(hcan hsucceeded).1, hsucceeded⟩ hunfound
  | @result d _ _ _ _ _ hmem hsucceeded _ hends =>
    obtain ⟨_, hstore⟩ := hcan ⟨d, hmem, hsucceeded⟩
    obtain ⟨k, hk⟩ := hdocs d hmem hsucceeded
    obtain ⟨hr, hcleared, time, hshared⟩ := hends.works hk hstore hfull
    refine ⟨hr, hcleared, ?_, ?_⟩
    · intro d' hd'
      rw [hshared]
      exact List.mem_append_left _ hd'
    · intro _
      refine ⟨sharedKnowledge k.summary k.context k.skills k.repository time, ?_, d, ?_, prState, k,
        time, hk, rfl⟩
      · rw [hshared]
        exact List.mem_append_right _ (List.mem_singleton_self _)
      · exact List.mem_filter.mpr ⟨hmem, hsucceeded⟩

theorem Threads.onGitHub (hes : Threads (Elastic.Serve faults seen) es tr es')
    (htr : ∀ e ∈ tr, OnGitHub e.1) : es' = es := by
  apply hes.unchanged
  rintro ⟨o, x⟩ he es₁ hans
  have ho := htr _ he
  cases o with
  | search _ => exact ho.elim
  | indexDocument _ _ => exact ho.elim
  | deleteByQuery _ _ => exact ho.elim
  | bulk _ => exact ho.elim
  | _ => exact hans

theorem getPRStatus_makes (prURL : String) :
    Makes OnGitHub (getPRStatus prURL : WorkerM σ PRStatus) := by
  unfold getPRStatus
  split
  · exact Makes.pure _
  · apply Makes.tryCatch
    · apply Makes.bind (Makes.attempt trivial _)
      intro repo
      exact Makes.bind (Makes.attempt trivial _) fun pr => Makes.pure _
    · exact fun _ => Makes.pure _

theorem getPRStatus_returns (prURL : String) :
    Effect.Returns (getPRStatus prURL : WorkerM σ PRStatus) := by
  unfold getPRStatus
  split
  · exact Effect.Returns.pure _
  · exact Effect.Returns.tryCatch fun _ => Effect.Returns.pure _

theorem graduationState_makes (prURL : String) :
    Makes OnGitHub (graduationState prURL : WorkerM σ String) :=
  Makes.ite (Makes.bind (getPRStatus_makes prURL) fun _ => Makes.pure _) (Makes.pure _)

theorem graduationState_returns (prURL : String) :
    Effect.Returns (graduationState prURL : WorkerM σ String) :=
  Effect.Returns.ite
    (Effect.Returns.bind (getPRStatus_returns prURL) fun _ => Effect.Returns.pure _)
    (Effect.Returns.pure _)

theorem GraduationEnds.shared {d : Dict} {r : Except Exc Bool}
    (h : GraduationEnds taskID prState d faults es tr r es') :
    ∃ added, es' sharedMemoryIndex = es sharedMemoryIndex ++ added := by
  cases h with
  | unfit _ => exact ⟨[], (List.append_nil _).symm⟩
  | refused _ _ => exact ⟨[], (List.append_nil _).symm⟩
  | lost _ _ => exact ⟨_, add_shared_shared es _⟩
  | stored _ _ _ _ hes' => exact ⟨_, hes'.shared.trans (add_shared_shared es _)⟩

theorem GraduationEnds.task {d : Dict} {r : Except Exc Bool}
    (h : GraduationEnds taskID prState d faults es tr r es') :
    ∀ d' ∈ es' taskMemoryIndex, d' ∈ es taskMemoryIndex := by
  intro d' hd'
  cases h with
  | unfit _ => exact hd'
  | refused _ _ => exact hd'
  | lost _ _ => rwa [add_shared_task] at hd'
  | stored _ _ _ _ hes' =>
    have hmem := (hes'.mem_iff.mp hd').1
    rwa [add_shared_task] at hmem

/-- Whatever fails, a graduation adds to the shared documents and takes from those of the tasks. -/
theorem graduateToShared_moves {r : Except Exc Bool}
    (hend : (graduateToShared taskID prState : WorkerM σ Bool).Ends s tr r s')
    (hes : Threads (Elastic.Serve faults seen) es tr es') :
    (∃ added, es' sharedMemoryIndex = es sharedMemoryIndex ++ added) ∧
      ∀ d ∈ es' taskMemoryIndex, d ∈ es taskMemoryIndex := by
  cases graduateToShared_ends hend hes with
  | nothing _ _ hes' =>
    exact ⟨⟨[], hes'.shared.trans (List.append_nil _).symm⟩, fun d hd => (hes'.mem_iff.mp hd).1⟩
  | result _ _ _ _ hends => exact ⟨hends.shared, hends.task⟩

/-- A request finds no such task, or looks up its pull request and makes a graduation, whose
value is both flags of the reply. -/
theorem graduateTask_ends {statuses : String → Option TaskStatus}
    {r : Except Exc (Except HTTPException GraduateResponse)}
    (hend : (graduateTask statuses taskID : WorkerM σ _).Ends s tr r s')
    (hes : Threads (Elastic.Serve faults seen) es tr es') :
    (statuses taskID = none ∧ es' = es ∧ ∃ err, r = .ok (.error err)) ∨
      statuses taskID ≠ none ∧ ∃ prState tr₁ tr₂ b, tr = tr₁ ++ tr₂ ∧
        (graduateToShared taskID prState : WorkerM σ Bool).Ends s tr₂ b s' ∧
        Threads (Elastic.Serve faults seen) es tr₂ es' ∧
        r = b.map fun graduated => .ok ⟨graduated, graduated, prState⟩ := by
  unfold graduateTask at hend
  split at hend
  · next hunknown =>
    obtain ⟨rfl, rfl, _⟩ := Effect.ends_pure hend
    exact Or.inl ⟨hunknown, hes.of_nil, _, rfl⟩
  · next status hstatus =>
    right
    refine ⟨by rw [hstatus]; exact Option.some_ne_none _, ?_⟩
    obtain ⟨tr₁, tr₂, prState, s₁, rfl, h₁, h₂⟩ := (graduationState_returns _).ends_bind hend
    obtain ⟨es₁, hes₁, hes₂⟩ := hes.of_append
    obtain ⟨rfl, hgithub⟩ := graduationState_makes _ _ _ _ _ h₁
    have hsame := Threads.onGitHub hes₁ hgithub
    subst hsame
    rcases Effect.ends_bind h₂ with ⟨tr₃, tr₄, b, s₂, rfl, h₃, h₄⟩ | ⟨e, rfl, h₃⟩
    · obtain ⟨rfl, rfl, rfl⟩ := Effect.ends_pure h₄
      rw [List.append_nil] at hes₂ ⊢
      exact ⟨prState, tr₁, tr₃, .ok b, rfl, h₃, hes₂, rfl⟩
    · exact ⟨prState, tr₁, tr₂, .error e, rfl, h₃, hes₂, rfl⟩

theorem graduateTask_moves {statuses : String → Option TaskStatus}
    {r : Except Exc (Except HTTPException GraduateResponse)}
    (hend : (graduateTask statuses taskID : WorkerM σ _).Ends s tr r s')
    (hes : Threads (Elastic.Serve faults seen) es tr es') :
    (∃ added, es' sharedMemoryIndex = es sharedMemoryIndex ++ added) ∧
      ∀ d ∈ es' taskMemoryIndex, d ∈ es taskMemoryIndex := by
  rcases graduateTask_ends hend hes with ⟨_, rfl, _⟩ | ⟨_, _, _, _, _, _, hshared, hes₂, _⟩
  · exact ⟨⟨[], (List.append_nil _).symm⟩, fun d hd => hd⟩
  · exact graduateToShared_moves hshared hes₂

/-- A worker that knows the task replies that it has graduated it, and has done so. -/
theorem graduateTask_works {statuses : String → Option TaskStatus} {status : TaskStatus}
    (hstatus : statuses taskID = some status)
    {r : Except Exc (Except HTTPException GraduateResponse)}
    (hend : (graduateTask statuses taskID : WorkerM σ _).Ends s tr r s')
    (hes : Threads (Elastic.Serve faults es) es tr es') (hcan : CanGraduate taskID faults es)
    (hdocs : ∀ d ∈ es taskMemoryIndex, succeededOf taskID d = true →
      ∀ prState, ∃ k, graduationKnowledge d prState = .ok k) :
    replyCode r = 200 ∧ Graduated taskID es es' := by
  rcases graduateTask_ends hend hes with ⟨hunknown, _⟩ | ⟨_, prState, _, _, _, _, hshared, hes₂, rfl⟩
  · rw [hstatus] at hunknown
    cases hunknown
  · obtain ⟨⟨b, rfl⟩, hgraduated⟩ :=
      graduateToShared_works hshared hes₂ hcan fun d hd hs => hdocs d hd hs prState
    exact ⟨rfl, hgraduated⟩

end Works

end BulletFarm.Worker
