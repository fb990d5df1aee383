import BulletFarm.Worker.Answer

/-!
# The evaluation of a run

A run prepares the workspace and the prompt, lets the agent work, and then looks at
what is staged. An attempt at a task stops before the agent, in the agent, or goes
on to the evaluation with the messages of the agent.
-/

namespace BulletFarm.Worker

open Interaction Python

set_option autoImplicit false

/-- `run_task` once the agent has answered. -/
def evaluate (notify : Bool) (request : TaskRequest) (repoInfo : RepoInfo)
    (messages : List Message) : RunM TaskStatus := do
  let cwd := some (workspaceOf request)
  report notify request.taskID 70 "Evaluating changes"
  let _ ← runChecked ["git", "add", "-A"] cwd
  let diffResult ← runProcess ["git", "diff", "--cached", "--stat"] cwd
  let hasChanges := strip diffResult.stdout != ""
  let uniqueTools ← ask (.setOrder (toolsCalled messages))
  if taskIncomplete hasChanges (outputText messages) uniqueTools.val then
    handleIncomplete notify request repoInfo (outputText messages) uniqueTools.val
  else finishSucceeded notify request repoInfo (outputText messages) uniqueTools.val

/-- How far an attempt at a task has come. -/
inductive Reached (notify : Bool) (request : TaskRequest) (s : RunState) :
    List (Event WorkerOp.Resp) → Except Exc TaskStatus → RunState → Prop where
  | unprepared {tr : List (Event WorkerOp.Resp)} {exc : Exc} {s' : RunState} :
      Only Prepares s tr s' → Reached notify request s tr (.error exc) s'
  | unanswered {tr₁ tr₂ : List (Event WorkerOp.Resp)} {exc : Exc} {s' : RunState} {prompt : String} :
      Only Prepares s tr₁ s →
      (runAgent notify request prompt maxLLMRetries).Ends s tr₂ (.error exc) s' →
      Reached notify request s (tr₁ ++ tr₂) (.error exc) s'
  | evaluated {tr₁ tr₂ tr₃ : List (Event WorkerOp.Resp)} {r : Except Exc TaskStatus}
      {s₁ s' : RunState} {prompt : String} {repoInfo : RepoInfo} :
      Only Prepares s tr₁ s → (runAgent notify request prompt maxLLMRetries).Ends s tr₂ (.ok ()) s₁ →
      (evaluate notify request repoInfo (s₁.result.getD [])).Ends s₁ tr₃ r s' →
      Reached notify request s (tr₁ ++ tr₂ ++ tr₃) r s'

section Reached
variable {notify : Bool} {request : TaskRequest} {s s' : RunState}
  {tr : List (Event WorkerOp.Resp)} {r : Except Exc TaskStatus}

theorem Reached.after {s₁ : RunState} {tr₁ tr₂ : List (Event WorkerOp.Resp)}
    (hfirst : Only Prepares s tr₁ s₁) (h : Reached notify request s₁ tr₂ r s') :
    Reached notify request s (tr₁ ++ tr₂) r s' := by
  obtain ⟨rfl, htr⟩ := hfirst
  have hcomposes := Only.composes (σ := RunState) Prepares
  have hgo : Only Prepares s₁ tr₁ s₁ := ⟨rfl, htr⟩
  cases h with
  | unprepared hprepares => exact .unprepared (hcomposes.trans hgo hprepares)
  | unanswered hprepares hagent =>
    rw [← List.append_assoc]
    exact .unanswered (hcomposes.trans hgo hprepares) hagent
  | evaluated hprepares hagent hrest =>
    rw [← List.append_assoc, ← List.append_assoc]
    exact .evaluated (hcomposes.trans hgo hprepares) hagent hrest

theorem Reached.bind {α : Type} {m : RunM α} {f : α → RunM TaskStatus} (hm : Makes Prepares m)
    (hf : ∀ a, Effect.Meets (Reached notify request) (f a)) :
    Effect.Meets (Reached notify request) (m >>= f) :=
  Effect.Meets.bind .unprepared Reached.after hm hf

theorem workOn_reached : Effect.Meets (Reached notify request) (workOn notify request) := by
  apply Reached.bind (checkOut_makes Locally.prepares _)
  intro _
  apply Reached.bind (configure_makes Locally.prepares _)
  intro _
  apply Reached.bind (report_makes Locally.prepares _ _ _ _)
  intro _
  apply Reached.bind ((getRepoInfo_makes _).mono fun _ => Converses.prepares)
  intro repoInfo
  apply Reached.bind ((getTaskHistory_makes _ _).mono fun _ => Looks.prepares)
  intro _
  apply Reached.bind ((gatherMemory_makes _).mono fun _ => Looks.prepares)
  intro context
  apply Reached.bind (runProcess_makes Locally.prepares _ _)
  intro listing
  apply Reached.bind (report_makes Locally.prepares _ _ _ _)
  intro _
  apply Reached.bind (report_makes Locally.prepares _ _ _ _)
  intro _ s tr r s' h
  rcases Effect.ends_bind h with ⟨tr₁, tr₂, _, s₁, rfl, h₁, h₂⟩ | ⟨exc, rfl, h₁⟩
  · exact .evaluated ((Only.composes Prepares).refl s) h₁ (Effect.ends_get_bind h₂)
  · exact .unanswered ((Only.composes Prepares).refl s) h₁

theorem attemptTask_reached {githubToken : String}
    (h : (attemptTask githubToken notify request).Ends s tr r s') : Reached notify request s tr r s' := by
  have hattempt : Effect.Meets (Reached notify request) (attemptTask githubToken notify request) := by
    apply Reached.bind (report_makes Locally.prepares _ _ _ _)
    intro _
    apply Reached.bind (runChecked_makes Locally.prepares _ _)
    exact fun _ => workOn_reached
  exact hattempt _ _ _ _ h

end Reached

/-! ## The whole run -/

section Run
variable {githubToken : String} {notify : Bool} {request : TaskRequest} {s s' : RunState}
  {tr : List (Event WorkerOp.Resp)} {r : Except Exc TaskStatus}

theorem Only.apart (h : Only Prepares s tr s') : Apart tr :=
  fun e he => Prepares.apart e.1 e.2 (h.2 e he)

/-- Once the agent has finished, the run is evaluated with what it answered. -/
theorem Reached.evaluation (h : Reached notify request s tr r s') (hresult : s.result = none)
    (hfinishes : Finishes tr) : ∃ tr₁ tr₂ tr₃ prompt repoInfo s₁, tr = tr₁ ++ tr₂ ++ tr₃ ∧
      Only Prepares s tr₁ s ∧ (runAgent notify request prompt maxLLMRetries).Ends s tr₂ (.ok ()) s₁ ∧
      (evaluate notify request repoInfo (answered (tr₁ ++ tr₂))).Ends s₁ tr₃ r s' := by
  cases h with
  | unprepared hprepares => exact absurd hfinishes hprepares.apart.not_finishes
  | unanswered hprepares hagent =>
    exfalso
    rcases runAgent_answers hagent with ⟨hr, _⟩ | ⟨exc, _, hnot⟩
    · cases hr
    · apply hnot
      unfold Finishes at hfinishes ⊢
      rwa [hprepares.apart.agentEnd_before] at hfinishes
  | @evaluated tr₁ tr₂ tr₃ _ s₁ _ prompt repoInfo hprepares hagent hrest =>
    refine ⟨tr₁, tr₂, tr₃, prompt, repoInfo, s₁, rfl, hprepares, hagent, ?_⟩
    rcases runAgent_answers hagent with ⟨_, _, hkept⟩ | ⟨exc, hr, _⟩
    · have hanswered : answered (tr₁ ++ tr₂) = s₁.result.getD [] := by
        unfold answered
        rw [List.foldl_append, hprepares.apart.keeps, hkept, hresult]
      rw [hanswered]
      exact hrest
    · cases hr

theorem handleFailure_apart {exc : Exc} (h : (handleFailure request exc).Ends s tr r s') :
    Apart tr := by
  obtain ⟨stamp, tr', _, rfl, hflush⟩ := handleFailure_ends h
  intro e he
  rcases List.mem_cons.mp he with rfl | he
  · rfl
  · exact (flush_apart hflush).2 e he

theorem runBuffered_reached (h : (runBuffered githubToken notify request).Ends s tr r s') :
    ∃ tr₁ tr₂ r₁ s₁, tr = tr₁ ++ tr₂ ∧ Apart tr₂ ∧ Reached notify request s tr₁ r₁ s₁ ∧
      ((∃ status, r₁ = .ok status ∧ r = .ok status) ∧ s₁ = s' ∧ tr₂ = [] ∨
        ∃ exc, r₁ = .error exc ∧ (handleFailure request exc).Ends s₁ tr₂ r s') := by
  rcases Effect.ends_tryCatch h with ⟨status, rfl, h₁⟩ | ⟨tr₁, tr₂, exc, s₁, rfl, h₁, h₂⟩
  · refine ⟨tr, [], _, s', (List.append_nil tr).symm, ?_, attemptTask_reached h₁,
      Or.inl ⟨⟨status, rfl, rfl⟩, rfl, rfl⟩⟩
    intro e he
    cases he
  · exact ⟨tr₁, tr₂, _, s₁, rfl, handleFailure_apart h₂, attemptTask_reached h₁,
      Or.inr ⟨exc, rfl, h₂⟩⟩

theorem runTask_evaluation (h : (runTask githubToken notify request).Runs tr (r, s'))
    (hfinishes : Finishes tr) : ∃ tr₁ tr₂ tr₃ repoInfo s₁ r₁ s₂, tr = tr₁ ++ tr₂ ++ tr₃ ∧
      (∃ startTime prompt tr₀, (runAgent notify request prompt maxLLMRetries).Ends
        (.begin request startTime) tr₀ (.ok ()) s₁) ∧
      (evaluate notify request repoInfo (answered tr₁)).Ends s₁ tr₂ r₁ s₂ ∧
      ((∃ status, r₁ = .ok status ∧ r = .ok status) ∧ s₂ = s' ∨
        (∃ exc, r₁ = .error exc) ∧ ∃ status, r = .ok status ∧ status.phase = .failed) := by
  obtain ⟨startTime, rest, rfl, hrun⟩ := Program.runs_call.mp h
  obtain ⟨tr₁, tr₂, r₁, s₂, rfl, hapart, hreached, hend⟩ := runBuffered_reached hrun
  have hnow : Apart [⟨.now, startTime⟩] := by
    intro e he
    rw [List.mem_singleton.mp he]
    rfl
  have hattempt : Finishes tr₁ := by
    unfold Finishes at hfinishes ⊢
    rwa [← List.singleton_append, hnow.agentEnd_before, hapart.agentEnd_after] at hfinishes
  obtain ⟨tr₃, tr₄, tr₅, prompt, repoInfo, s₁, rfl, hprepares, hagent, hevaluate⟩ :=
    hreached.evaluation rfl hattempt
  refine ⟨⟨.now, startTime⟩ :: (tr₃ ++ tr₄), tr₅, tr₂, repoInfo, s₁, r₁, s₂, by simp,
    ⟨startTime, prompt, tr₄, hagent⟩, hevaluate, ?_⟩
  rcases hend with ⟨hstatus, rfl, _⟩ | ⟨exc, rfl, hfailure⟩
  · exact Or.inl ⟨hstatus, rfl⟩
  · exact Or.inr ⟨⟨exc, rfl⟩, handleFailure_failed hfailure⟩

end Run

end BulletFarm.Worker
