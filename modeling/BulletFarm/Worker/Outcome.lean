import BulletFarm.Worker.Routes

/-!
# The outcome of a pull request

`get_pr_status` says "error" when a query of it fails, and `graduate_to_shared` records
everything but "merged" as closed without merge.
-/

namespace BulletFarm.Worker

open Interaction Python

set_option autoImplicit false

variable {σ : Type}

inductive PROutcome where
  | merged
  | closed
deriving DecidableEq, Repr

/-- The outcome a document of `shared_memory` records in the first line of its context. -/
def recordedOutcome (doc : Dict) : Option PROutcome :=
  match Json.Value.lookup "context" doc with
  | some (.str context) =>
    if "Outcome: PR merged\n".toList.isPrefixOf context.toList then some .merged
    else if "Outcome: PR closed without merge\n".toList.isPrefixOf context.toList then some .closed
    else none
  | _ => none

/-- GitHub says that the pull request is merged. -/
def SaysMerged : Event WorkerOp.Resp → Prop
  | ⟨.getPull _ _, .ok pull⟩ => pull.merged = true ∨ pull.state = "merged"
  | _ => False

/-- It has said so to one of these queries. -/
def FindsMerged (tr : List (Event WorkerOp.Resp)) : Prop := ∃ e ∈ tr, SaysMerged e

/-- The document was sent to be stored for all tasks. -/
def Sends (tr : List (Event WorkerOp.Resp)) (doc : Dict) : Prop :=
  ∃ r, ⟨.indexDocument sharedMemoryIndex doc, r⟩ ∈ tr

section Looks
variable {prURL taskID prState : String} {s s' : σ} {tr tr₁ tr₂ : List (Event WorkerOp.Resp)}
  {doc : Dict}

theorem findsMerged_append : FindsMerged (tr₁ ++ tr₂) ↔ FindsMerged tr₁ ∨ FindsMerged tr₂ := by
  unfold FindsMerged
  constructor
  · rintro ⟨e, he, hsays⟩
    rcases List.mem_append.mp he with he | he
    · exact Or.inl ⟨e, he, hsays⟩
    · exact Or.inr ⟨e, he, hsays⟩
  · rintro (⟨e, he, hsays⟩ | ⟨e, he, hsays⟩)
    · exact ⟨e, List.mem_append_left _ he, hsays⟩
    · exact ⟨e, List.mem_append_right _ he, hsays⟩

theorem sends_append : Sends (tr₁ ++ tr₂) doc ↔ Sends tr₁ doc ∨ Sends tr₂ doc := by
  simp only [Sends, List.mem_append, exists_or]

/-- The answer comes of a pull request that was read, or says that none could be. -/
theorem getPRStatus_cases {r : Except Exc PRStatus}
    (h : (getPRStatus prURL : WorkerM σ PRStatus).Ends s tr r s') :
    (∃ e repo number pull, tr = [e, ⟨.getPull repo number, .ok pull⟩] ∧ ¬ SaysMerged e ∧
      r = .ok ⟨if pull.merged then "merged" else pull.state, pull.merged, pull.draft⟩) ∨
    ∃ state ∈ ["unknown", "error"], r = .ok ⟨state, false, false⟩ ∧ ∀ e ∈ tr, ¬ SaysMerged e := by
  unfold getPRStatus at h
  split at h
  · obtain ⟨rfl, rfl, rfl⟩ := Effect.ends_pure h
    exact Or.inr ⟨"unknown", by simp, rfl, by simp⟩
  · rcases Effect.ends_tryCatch h with ⟨info, rfl, h₁⟩ | ⟨tr₁, tr₂, exc, s₁, rfl, h₁, h₂⟩
    · rcases Effect.ends_bind h₁ with ⟨tr₃, tr₄, repo, s₂, rfl, h₃, h₄⟩ | ⟨_, he, _⟩
      · obtain ⟨x, rfl, _, rfl⟩ := Effect.ends_attempt h₃
        rcases Effect.ends_bind h₄ with ⟨tr₅, tr₆, pull, s₃, rfl, h₅, h₆⟩ | ⟨_, he, _⟩
        · obtain ⟨y, rfl, hy, rfl⟩ := Effect.ends_attempt h₅
          obtain ⟨rfl, hinfo, rfl⟩ := Effect.ends_pure h₆
          cases hinfo
          cases hy
          exact Or.inl ⟨_, _, _, pull, rfl, by simp [SaysMerged], rfl⟩
        · cases he
      · cases he
    · obtain ⟨rfl, rfl, rfl⟩ := Effect.ends_pure h₂
      refine Or.inr ⟨"error", by simp, rfl, ?_⟩
      rw [List.append_nil]
      rcases Effect.ends_bind h₁ with ⟨tr₃, tr₄, repo, s₂, rfl, h₃, h₄⟩ | ⟨_, _, h₃⟩
      · obtain ⟨x, rfl, _, rfl⟩ := Effect.ends_attempt h₃
        rcases Effect.ends_bind h₄ with ⟨tr₅, tr₆, pull, s₃, rfl, h₅, h₆⟩ | ⟨_, _, h₅⟩
        · obtain ⟨_, he, _⟩ := Effect.ends_pure h₆
          cases he
        · obtain ⟨y, rfl, hy, rfl⟩ := Effect.ends_attempt h₅
          cases hy
          simp [SaysMerged]
      · obtain ⟨x, rfl, _, rfl⟩ := Effect.ends_attempt h₃
        simp [SaysMerged]

/-- The state is "merged" exactly if GitHub has said so. -/
theorem getPRStatus_ends {r : Except Exc PRStatus}
    (h : (getPRStatus prURL : WorkerM σ PRStatus).Ends s tr r s') :
    ∃ info, r = .ok info ∧ (info.state = "merged" ↔ FindsMerged tr) ∧
      (info.merged = true → info.state = "merged") := by
  rcases getPRStatus_cases h with ⟨e, repo, number, pull, rfl, he, rfl⟩ | ⟨state, hstate, rfl, hno⟩
  · have hfinds : FindsMerged [e, ⟨.getPull repo number, .ok pull⟩] ↔
        pull.merged = true ∨ pull.state = "merged" := by
      simp only [FindsMerged, List.mem_cons, List.not_mem_nil, or_false, exists_eq_or_imp, he, false_or,
        exists_eq_left]
      rfl
    refine ⟨_, rfl, ?_, fun hmerged => if_pos hmerged⟩
    rw [hfinds]
    by_cases hmerged : pull.merged = true
    · simp [hmerged]
    · simp [hmerged]
  · refine ⟨_, rfl, ⟨fun hmerged => ?_, ?_⟩, fun hmerged => by cases hmerged⟩
    · subst hmerged
      simp at hstate
    · rintro ⟨e, he, hsays⟩
      exact absurd hsays (hno e he)

theorem graduationState_ends {r : Except Exc String}
    (h : (graduationState prURL : WorkerM σ String).Ends s tr r s') :
    ∃ prState, r = .ok prState ∧ (prState = "merged" ↔ FindsMerged tr) := by
  unfold graduationState at h
  split at h
  · rcases Effect.ends_bind h with ⟨tr₁, tr₂, info, s₁, rfl, h₁, h₂⟩ | ⟨exc, _, h₁⟩
    · obtain ⟨rfl, rfl, rfl⟩ := Effect.ends_pure h₂
      obtain ⟨_, hinfo, hstate, _⟩ := getPRStatus_ends h₁
      cases hinfo
      rw [List.append_nil]
      exact ⟨_, rfl, hstate⟩
    · obtain ⟨_, hinfo, _⟩ := getPRStatus_ends h₁
      cases hinfo
  · obtain ⟨rfl, rfl, rfl⟩ := Effect.ends_pure h
    exact ⟨_, rfl, by simp [FindsMerged]⟩

/-- A pull request that is reported as merged was found merged, and one that is reported as
closed was not. -/
theorem getTaskPRStatus_ends {statuses : String → Option TaskStatus} {response : PRStatusResponse}
    (h : (getTaskPRStatus statuses taskID : WorkerM σ _).Ends s tr (.ok (.ok response)) s') :
    (response.merged = true → FindsMerged tr) ∧
      (response.merged = false → response.state = "closed" → ¬ FindsMerged tr) := by
  unfold getTaskPRStatus at h
  split at h
  · obtain ⟨_, he, _⟩ := Effect.ends_pure h
    cases he
  · split at h
    · obtain ⟨rfl, he, rfl⟩ := Effect.ends_pure h
      cases he
      exact ⟨fun h => (by cases h), fun _ h => absurd h (by decide)⟩
    · rcases Effect.ends_bind h with ⟨tr₁, tr₂, info, s₁, rfl, h₁, h₂⟩ | ⟨_, he, _⟩
      · obtain ⟨rfl, he, rfl⟩ := Effect.ends_pure h₂
        cases he
        obtain ⟨_, hinfo, hstate, hmerged⟩ := getPRStatus_ends h₁
        cases hinfo
        rw [List.append_nil]
        refine ⟨fun h => hstate.mp (hmerged h), fun _ hclosed hfinds => ?_⟩
        have hboth := hclosed.symm.trans (hstate.mpr hfinds)
        exact absurd hboth (by decide)
      · cases he

/-- The state in which GitHub has shown a pull request. -/
def shownState : Event WorkerOp.Resp → Option String
  | ⟨.getPull _ _, .ok pull⟩ => some pull.state
  | _ => none

/-- GitHub knows a pull request as open or as closed. -/
def OpenOrClosed (e : Event WorkerOp.Resp) : Prop := ∀ state ∈ shownState e, state ∈ ["open", "closed"]

instance : DecidablePred OpenOrClosed :=
  fun e => inferInstanceAs (Decidable (∀ state ∈ shownState e, state ∈ ["open", "closed"]))

/-- The state says "merged" of a merged pull request and of no other. -/
theorem getTaskPRStatus_state {statuses : String → Option TaskStatus} {response : PRStatusResponse}
    (h : (getTaskPRStatus statuses taskID : WorkerM σ _).Ends s tr (.ok (.ok response)) s')
    (hstates : ∀ e ∈ tr, OpenOrClosed e) : response.state = "merged" ↔ response.merged = true := by
  unfold getTaskPRStatus at h
  split at h
  · obtain ⟨_, he, _⟩ := Effect.ends_pure h
    cases he
  · split at h
    · obtain ⟨rfl, he, rfl⟩ := Effect.ends_pure h
      cases he
      simp
    · rcases Effect.ends_bind h with ⟨tr₁, tr₂, info, s₁, rfl, h₁, h₂⟩ | ⟨_, he, _⟩
      · obtain ⟨rfl, he, rfl⟩ := Effect.ends_pure h₂
        cases he
        rcases getPRStatus_cases h₁ with ⟨e, repo, number, pull, rfl, _, hinfo⟩ |
          ⟨state, hstate, hinfo, _⟩
        · cases hinfo
          have hopen : pull.state ∈ ["open", "closed"] :=
            hstates ⟨.getPull repo number, .ok pull⟩ (by simp) pull.state rfl
          have hno : pull.state ≠ "merged" := by
            intro hmerged
            simp [hmerged] at hopen
          by_cases hmerged : pull.merged = true
          · simp [hmerged]
          · simp [hmerged, hno]
        · cases hinfo
          refine iff_of_false ?_ (by simp)
          intro hmerged
          simp [show state = "merged" from hmerged] at hstate
      · cases he

end Looks

/-! ## What is stored -/

/-- The outcome `graduate_to_shared` makes of a state. -/
def outcomeOf (prState : String) : PROutcome := if prState = "merged" then .merged else .closed

theorem of_ok_bind {α β : Type} {x : Except Exc α} {f : α → Except Exc β} {P : β → Prop}
    (h : ∀ a b, f a = .ok b → P b) : ∀ b, (x >>= f) = .ok b → P b := by
  intro b hb
  cases x with
  | ok a => exact h a b hb
  | error e => cases hb

theorem of_ok_ite {α : Type} {c : Prop} [Decidable c] {x y : Except Exc α} {P : α → Prop}
    (hx : ∀ a, x = .ok a → P a) (hy : ∀ a, y = .ok a → P a) :
    ∀ a, (if c then x else y) = .ok a → P a := by
  split
  · exact hx
  · exact hy

/-- The first line of the context says what the outcome is. -/
def SaysOutcome (prState : String) (k : Knowledge) : Prop :=
  ∃ rest, k.context = "Outcome: PR " ++
    (if prState = "merged" then "merged" else "closed without merge") ++ ("\n" ++ rest)

theorem graduationKnowledge_says (d : Dict) (prState : String) :
    ∀ k, graduationKnowledge d prState = .ok k → SaysOutcome prState k := by
  have hlines : ∀ outcome methodology tools files output : String, ∃ rest,
      "Outcome: PR " ++ outcome ++ "\nMethodology: " ++ methodology ++ "\nTools used: " ++ tools ++
        "\nFiles modified: " ++ files ++ "\nAgent output: " ++ output =
          "Outcome: PR " ++ outcome ++ ("\n" ++ rest) := by
    intro outcome methodology tools files output
    have hline : "\nMethodology: " = "\n" ++ "Methodology: " := by decide
    refine ⟨"Methodology: " ++ methodology ++ "\nTools used: " ++ tools ++ "\nFiles modified: " ++ files ++
      "\nAgent output: " ++ output, ?_⟩
    rw [hline]
    simp only [String.append_assoc]
  have hlast : ∀ {x : Except Exc Json.Value} {f : Json.Value → Knowledge},
      (∀ shortOutput, SaysOutcome prState (f shortOutput)) →
      ∀ k, (x >>= fun shortOutput => pure (f shortOutput)) = .ok k → SaysOutcome prState k := by
    intro x f hf
    apply of_ok_bind
    intro shortOutput k hk
    cases hk
    exact hf shortOutput
  unfold graduationKnowledge
  apply of_ok_bind
  intro shortPrompt
  apply of_ok_bind
  intro filesCount
  apply of_ok_bind
  intro toolsCount
  apply of_ok_ite
  all_goals
    apply of_ok_bind
    intro toolsText
    apply of_ok_ite
    · apply of_ok_bind
      intro first
      apply of_ok_bind
      intro filesText
      exact hlast fun _ => hlines _ _ _ _ _
    · apply of_ok_bind
      intro filesText
      exact hlast fun _ => hlines _ _ _ _ _

theorem recordedOutcome_knowledge {d : Dict} {prState : String} {k : Knowledge}
    (h : graduationKnowledge d prState = .ok k) (time : Time) :
    recordedOutcome (sharedKnowledge k.summary k.context k.skills k.repository time) =
      some (outcomeOf prState) := by
  obtain ⟨rest, hcontext⟩ := graduationKnowledge_says d prState k h
  have hlookup : Json.Value.lookup "context"
      (sharedKnowledge k.summary k.context k.skills k.repository time) = some (.str k.context) := rfl
  unfold recordedOutcome outcomeOf
  rw [hlookup, hcontext]
  by_cases hmerged : prState = "merged"
  · simp [hmerged]
  · simp [hmerged]

/-- Calls that say nothing about a pull request, and send nothing but this outcome. -/
def Records (outcome : PROutcome) : WorkerOp → Prop
  | .indexDocument index doc => index = sharedMemoryIndex → recordedOutcome doc = some outcome
  | .getPull _ _ => False
  | _ => True

section Graduations
variable {taskID prState : String} {tr : List (Event WorkerOp.Resp)} {outcome : PROutcome}

theorem Ensures.records {o : WorkerOp} (h : Ensures o) : Records outcome o := by
  cases o <;> trivial

theorem deleteTaskMemory_records (taskID : String) :
    Makes (Records outcome) (deleteTaskMemory taskID : WorkerM σ Nat) := by
  apply Makes.tryCatch
  · refine Makes.bind (ensureIndex_makes.mono fun _ h => h.records) fun _ => ?_
    exact Makes.attempt trivial _
  · exact fun _ => Makes.pure _

theorem getTaskResult_records (taskID : String) :
    Makes (Records outcome) (getTaskResult taskID : WorkerM σ (Option Dict)) := by
  apply Makes.tryCatch
  · refine Makes.bind (ensureIndex_makes.mono fun _ h => h.records) fun _ => ?_
    exact Makes.bind (Makes.attempt trivial _) fun _ => Makes.pure _
  · exact fun _ => Makes.pure _

/-- Whatever fails, only documents with this outcome are sent. -/
theorem graduateToShared_records (taskID prState : String) :
    Makes (Records (outcomeOf prState)) (graduateToShared taskID prState : WorkerM σ Bool) := by
  refine Makes.bind (getTaskResult_records taskID) fun result => ?_
  have hnothing : Makes (Records (outcomeOf prState))
      (deleteTaskMemory taskID >>= fun _ => pure false : WorkerM σ Bool) :=
    Makes.bind (deleteTaskMemory_records taskID) fun _ => Makes.pure _
  match result with
  | none => exact hnothing
  | some [] => exact hnothing
  | some (m :: rest) =>
    refine Makes.ofExcept_bind fun k hk => ?_
    have hstore : Makes (Records (outcomeOf prState))
        (storeSharedKnowledge k.summary k.context k.skills k.repository : WorkerM σ IndexResult) := by
      refine Makes.bind (ensureIndex_makes.mono fun _ h => h.records) fun _ => ?_
      refine Makes.bind (Makes.ask trivial) fun time => ?_
      exact Makes.attempt (fun _ => recordedOutcome_knowledge hk time) _
    refine Makes.bind hstore fun _ => ?_
    exact Makes.bind (deleteTaskMemory_records taskID) fun _ => Makes.pure _

/-- A graduation records that the pull request was merged exactly if it has found it so. -/
theorem graduateTask_records {statuses : String → Option TaskStatus} {s s' : σ}
    {r : Except Exc (Except HTTPException GraduateResponse)}
    (h : (graduateTask statuses taskID : WorkerM σ _).Ends s tr r s') :
    ∃ outcome, (outcome = .merged ↔ FindsMerged tr) ∧
      ∀ doc, Sends tr doc → recordedOutcome doc = some outcome := by
  unfold graduateTask at h
  split at h
  · obtain ⟨rfl, _, _⟩ := Effect.ends_pure h
    exact ⟨.closed, by simp [FindsMerged], fun doc ⟨_, hdoc⟩ => by cases hdoc⟩
  · rename_i status _
    obtain ⟨tr₁, tr₂, prState, s₁, rfl, h₁, h₂⟩ := (graduationState_returns _).ends_bind h
    obtain ⟨_, hstate, hmerged⟩ := graduationState_ends h₁
    cases hstate
    have hgithub := (graduationState_makes _ _ _ _ _ h₁).2
    have hrest : ∀ e ∈ tr₂, Records (outcomeOf prState) e.1 := by
      have hmakes : Makes (Records (outcomeOf prState))
          (graduateToShared taskID prState >>= fun graduated => pure (.ok {
            taskMemoryDeleted := graduated
            sharedMemoryUpdated := graduated
            prState := prState }) : WorkerM σ (Except HTTPException GraduateResponse)) :=
        Makes.bind (graduateToShared_records taskID prState) fun _ => Makes.pure _
      exact (hmakes _ _ _ _ h₂).2
    refine ⟨outcomeOf prState, ?_, ?_⟩
    · have hnone : ¬ FindsMerged tr₂ := by
        rintro ⟨e, he, hsays⟩
        have hrecords := hrest e he
        obtain ⟨o, r⟩ := e
        cases o <;> trivial
      rw [findsMerged_append]
      simp only [hnone, or_false]
      rw [← hmerged]
      unfold outcomeOf
      split
      · rename_i hstate
        simp [hstate]
      · rename_i hstate
        simp [hstate]
    · intro doc hdoc
      rcases sends_append.mp hdoc with ⟨_, hdoc⟩ | ⟨_, hdoc⟩
      · exact (hgithub _ hdoc).elim
      · exact hrest _ hdoc rfl

end Graduations

end BulletFarm.Worker
