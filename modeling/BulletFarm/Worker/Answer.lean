import BulletFarm.Worker.Flush

/-!
# What the agent answered

The messages that a run evaluates are a matter of its calls of the agent: the last
output of a model that a stream told of, in whichever attempt, or what a plain
invocation gave, or the message for an agent that ran out of steps.
-/

namespace BulletFarm.Worker

open Interaction Python

set_option autoImplicit false

/-! ## Calls of the agent -/

def isRecursion (exc : Exc) : Bool := contains (lower exc.text) "recursion"

/-- How a call of the agent ended. -/
def agentCall : Event WorkerOp.Resp → Option (Option Exc)
  | ⟨.streamEvents _ _, stream⟩ => some stream.error
  | ⟨.invoke _ _, .ok _⟩ => some none
  | ⟨.invoke _ _, .error exc⟩ => some (some exc)
  | _ => none

/-- How the last call of the agent ended. -/
def agentEnd (tr : List (Event WorkerOp.Resp)) : Option (Option Exc) :=
  (tr.filterMap agentCall).getLast?

/-- The agent has run, and its last run did not fail for want of anything but steps. -/
def Finishes (tr : List (Event WorkerOp.Resp)) : Prop :=
  agentEnd tr = some none ∨ ∃ exc, agentEnd tr = some (some exc) ∧ isRecursion exc = true

def keepOutput (kept : Option (List Message)) : AgentEvent → Option (List Message)
  | .chatModelEnd (some output) => some [output]
  | _ => kept

def stopFor (kept : Option (List Message)) : Option Exc → Option (List Message)
  | some exc => if isRecursion exc then some [recursionMessage] else kept
  | none => kept

def keepAnswer (kept : Option (List Message)) : Event WorkerOp.Resp → Option (List Message)
  | ⟨.streamEvents _ _, stream⟩ => stopFor (stream.events.foldl keepOutput kept) stream.error
  | ⟨.invoke _ _, .ok messages⟩ => some messages
  | ⟨.invoke _ _, .error exc⟩ => stopFor kept (some exc)
  | _ => kept

/-- The messages that have been kept after the calls of the trace. -/
def answered (tr : List (Event WorkerOp.Resp)) : List Message := (tr.foldl keepAnswer none).getD []

section Calls
variable {tr tr₁ tr₂ : List (Event WorkerOp.Resp)} {kept : Option (List Message)}

/-- No call of the agent. -/
def Apart (tr : List (Event WorkerOp.Resp)) : Prop := ∀ e ∈ tr, agentCall e = none

theorem apart_append : Apart (tr₁ ++ tr₂) ↔ Apart tr₁ ∧ Apart tr₂ := List.forall_mem_append

theorem keepAnswer_of_none {e : Event WorkerOp.Resp} (h : agentCall e = none) :
    keepAnswer kept e = kept := by
  obtain ⟨o, r⟩ := e
  cases o with
  | streamEvents prompt tools => cases h
  | invoke prompt tools => cases r <;> cases h
  | _ => rfl

theorem Apart.keeps (h : Apart tr) : tr.foldl keepAnswer kept = kept := by
  induction tr generalizing kept with
  | nil => rfl
  | cons e rest ih =>
    rw [List.foldl_cons, keepAnswer_of_none (h e List.mem_cons_self)]
    exact ih fun e he => h e (List.mem_cons_of_mem _ he)

theorem Apart.agentEnd (h : Apart tr) : agentEnd tr = none := by
  have hnone : tr.filterMap agentCall = [] := List.filterMap_eq_nil_iff.mpr h
  unfold Worker.agentEnd
  rw [hnone]
  rfl

theorem agentEnd_append : agentEnd (tr₁ ++ tr₂) = (agentEnd tr₂).or (agentEnd tr₁) := by
  unfold agentEnd
  rw [List.filterMap_append, List.getLast?_append]

theorem Apart.agentEnd_after (h : Apart tr₂) (tr₁ : List (Event WorkerOp.Resp)) :
    Worker.agentEnd (tr₁ ++ tr₂) = Worker.agentEnd tr₁ := by
  rw [agentEnd_append, h.agentEnd, Option.none_or]

theorem Apart.agentEnd_before (h : Apart tr₁) : Worker.agentEnd (tr₁ ++ tr₂) = Worker.agentEnd tr₂ := by
  rw [agentEnd_append, h.agentEnd, Option.or_none]

theorem Apart.not_finishes (h : Apart tr) : ¬ Finishes tr := by
  unfold Finishes
  rw [h.agentEnd]
  rintro (hend | ⟨exc, hend, _⟩)
  · cases hend
  · cases hend

theorem Makes.apart {σ α : Type} {ok : WorkerOp → Prop} {m : WorkerM σ α} (hm : Makes ok m)
    (hok : ∀ o r, ok o → agentCall ⟨o, r⟩ = none) {s s' : σ} {r : Except Exc α}
    (h : m.Ends s tr r s') : s' = s ∧ Apart tr := by
  obtain ⟨rfl, htr⟩ := hm _ _ _ _ h
  exact ⟨rfl, fun e he => hok e.1 e.2 (htr e he)⟩

end Calls

theorem Prepares.apart (o : WorkerOp) (r : o.Resp) (h : Prepares o) : agentCall ⟨o, r⟩ = none := by
  cases o with
  | streamEvents _ _ | invoke _ _ => exact h.elim
  | _ => rfl

theorem Stores.apart (o : WorkerOp) (r : o.Resp) (h : Stores o) : agentCall ⟨o, r⟩ = none := by
  cases o with
  | streamEvents _ _ | invoke _ _ => exact h.elim
  | _ => rfl

/-! ## The stream -/

section Stream
variable {request : TaskRequest} {s s' : RunState} {tr : List (Event WorkerOp.Resp)}

theorem flush_apart {r : Except Exc BulkWriteResult} (h : flush.Ends s tr r s') :
    s' = s ∧ Apart tr :=
  flush_makes.apart Stores.apart h

theorem handleEvent_answer {stepCount : Nat} {event : AgentEvent} {r : Except Exc Nat}
    (h : (handleEvent request stepCount event).Ends s tr r s') :
    s'.result = keepOutput s.result event ∧ Apart tr := by
  have hpure : ∀ {n s s' tr} {r : Except Exc Nat}, Effect.Ends (pure n : RunM Nat) s tr r s' →
      s' = s ∧ Apart tr := by
    intro n s s' tr r h
    obtain ⟨rfl, _, rfl⟩ := Effect.ends_pure h
    exact ⟨rfl, fun e he => by cases he⟩
  have hkept : ∀ {n}, Effect.Ends (pure n : RunM Nat) s tr r s' → s'.result = s.result ∧ Apart tr := by
    intro n h
    obtain ⟨rfl, hapart⟩ := hpure h
    exact ⟨rfl, hapart⟩
  cases event with
  | toolStart name elapsed sinceFlush =>
    have hrest := Effect.ends_get_bind h
    split at hrest
    · obtain ⟨stamp, tr', _, rfl, hflush⟩ := addTaskMemory_flush_ends hrest
      obtain ⟨rfl, hapart⟩ := flush_apart hflush
      refine ⟨rfl, ?_⟩
      intro e he
      rcases List.mem_cons.mp he with rfl | he
      · rfl
      · exact hapart e he
    · exact hkept hrest
  | chatModelEnd output =>
    cases output with
    | none => exact hkept h
    | some output =>
      obtain ⟨rfl, hapart⟩ := hpure (Effect.ends_modify_bind h)
      exact ⟨rfl, hapart⟩
  | toolEnd => exact hkept h
  | other kind => exact hkept h

theorem handleEvents_answer {stepCount : Nat} {events : List AgentEvent} {r : Except Exc Unit}
    (h : (handleEvents request stepCount events).Ends s tr r s') :
    r = .ok () ∧ s'.result = events.foldl keepOutput s.result ∧ Apart tr := by
  induction events generalizing stepCount s tr with
  | nil =>
    obtain ⟨rfl, rfl, rfl⟩ := Effect.ends_pure h
    exact ⟨rfl, rfl, fun e he => by cases he⟩
  | cons event rest ih =>
    obtain ⟨tr₁, tr₂, n, s₁, rfl, h₁, h₂⟩ := (handleEvent_returns stepCount event).ends_bind h
    obtain ⟨hfirst, hapart₁⟩ := handleEvent_answer h₁
    obtain ⟨hr, hrest, hapart₂⟩ := ih h₂
    refine ⟨hr, ?_, apart_append.mpr ⟨hapart₁, hapart₂⟩⟩
    rw [hrest, hfirst, List.foldl_cons]

end Stream

/-! ## All attempts -/

/-- The last call of the agent is the one that decides how the attempt ends. -/
inductive Attempted (s : RunState) (tr : List (Event WorkerOp.Resp)) (s' : RunState) :
    Except Exc Unit → Prop where
  | done : agentEnd tr = some none → s'.result = tr.foldl keepAnswer s.result →
      Attempted s tr s' (.ok ())
  | failed {exc : Exc} : agentEnd tr = some (some exc) →
      tr.foldl keepAnswer s.result = stopFor s'.result (some exc) → Attempted s tr s' (.error exc)

section Attempts
variable {request : TaskRequest} {s s' : RunState} {tr : List (Event WorkerOp.Resp)}
  {r : Except Exc Unit}

theorem runAttempt_answer {prompt : String} (h : (runAttempt request prompt).Ends s tr r s') :
    Attempted s tr s' r := by
  obtain ⟨stream, tr', rfl, hrest⟩ := Effect.ends_call_bind h
  rcases Effect.ends_bind hrest with ⟨tr₁, tr₂, _, s₁, rfl, h₁, h₂⟩ | ⟨exc, rfl, h₁⟩
  · obtain ⟨_, hresult, hapart⟩ := handleEvents_answer h₁
    have hend : agentEnd (⟨.streamEvents prompt (workspaceTools request), stream⟩ :: tr₁) =
        some stream.error := hapart.agentEnd_after [_]
    have hkept : (⟨.streamEvents prompt (workspaceTools request), stream⟩ :: tr₁ :
        List (Event WorkerOp.Resp)).foldl keepAnswer s.result = stopFor s₁.result stream.error := by
      rw [List.foldl_cons, hapart.keeps, hresult]
      rfl
    rw [← List.cons_append]
    cases herror : stream.error with
    | some exc =>
      rw [herror] at h₂ hend hkept
      obtain ⟨rfl, hr⟩ := Program.runs_ret.mp h₂
      cases hr
      rw [List.append_nil]
      exact .failed hend hkept
    | none =>
      rw [herror] at h₂ hend hkept
      have hinvoke := Effect.ends_get_bind h₂
      split at hinvoke
      · rcases Effect.ends_bind hinvoke with ⟨tr₃, tr₄, messages, s₂, rfl, h₃, h₄⟩ | ⟨exc, rfl, h₃⟩
        · obtain ⟨answer, rfl, hanswer, rfl⟩ := Effect.ends_attempt h₃
          obtain ⟨rfl, rfl, rfl⟩ := Effect.ends_modify h₄
          rw [List.append_nil, show answer = .ok messages from hanswer.symm]
          apply Attempted.done
          · rw [agentEnd_append]
            rfl
          · rw [List.foldl_append]
            rfl
        · obtain ⟨answer, rfl, hanswer, rfl⟩ := Effect.ends_attempt h₃
          rw [show answer = .error exc from hanswer.symm]
          apply Attempted.failed
          · rw [agentEnd_append]
            rfl
          · rw [List.foldl_append, hkept]
            rfl
      · obtain ⟨rfl, rfl, rfl⟩ := Effect.ends_pure hinvoke
        rw [List.append_nil]
        exact .done hend hkept.symm
  · obtain ⟨hr, _⟩ := handleEvents_answer h₁
    cases hr

/-- What the attempts at the agent come to. -/
def Answers (s : RunState) (tr : List (Event WorkerOp.Resp)) (r : Except Exc Unit) (s' : RunState) :
    Prop :=
  (r = .ok () ∧ Finishes tr ∧ s'.result = tr.foldl keepAnswer s.result) ∨
    ∃ exc, r = .error exc ∧ ¬ Finishes tr

theorem Finishes.before {tr₁ tr₂ : List (Event WorkerOp.Resp)} (h : Finishes tr₂) :
    Finishes (tr₁ ++ tr₂) := by
  unfold Finishes at h ⊢
  rw [agentEnd_append]
  rcases h with hend | ⟨exc, hend, hrecursion⟩
  · rw [hend]
    exact Or.inl rfl
  · rw [hend]
    exact Or.inr ⟨exc, rfl, hrecursion⟩

theorem not_finishes {exc : Exc} (hend : agentEnd tr = some (some exc))
    (hrecursion : isRecursion exc = false) : ¬ Finishes tr := by
  unfold Finishes
  rw [hend]
  rintro (hdone | ⟨exc', hsome, htrue⟩)
  · cases hdone
  · cases hsome
    rw [hrecursion] at htrue
    cases htrue

theorem Answers.after {tr₁ tr₂ : List (Event WorkerOp.Resp)} (hapart : Apart tr₁)
    (h : Answers s tr₂ r s') : Answers s (tr₁ ++ tr₂) r s' := by
  have hsame : Finishes (tr₁ ++ tr₂) ↔ Finishes tr₂ := by
    unfold Finishes
    rw [hapart.agentEnd_before]
  unfold Answers
  rw [hsame, List.foldl_append, hapart.keeps]
  exact h

theorem Answers.retried {tr₁ tr₂ : List (Event WorkerOp.Resp)} {s₁ : RunState} {exc : Exc}
    (hend : agentEnd tr₁ = some (some exc)) (hrecursion : isRecursion exc = false)
    (hkept : tr₁.foldl keepAnswer s.result = stopFor s₁.result (some exc))
    (h : Answers s₁ tr₂ r s') : Answers s (tr₁ ++ tr₂) r s' := by
  have hsame : tr₁.foldl keepAnswer s.result = s₁.result := by
    rw [hkept]
    simp [stopFor, hrecursion]
  rcases h with ⟨hr, hfinishes, hresult⟩ | ⟨exc', hr, hnot⟩
  · refine Or.inl ⟨hr, hfinishes.before, ?_⟩
    rw [List.foldl_append, hsame, hresult]
  · refine Or.inr ⟨exc', hr, ?_⟩
    intro hfinishes
    apply hnot
    unfold Finishes at hfinishes ⊢
    rw [agentEnd_append] at hfinishes
    cases hlast : agentEnd tr₂ with
    | some last => rwa [hlast, Option.some_or] at hfinishes
    | none =>
      rw [hlast, Option.none_or] at hfinishes
      exact absurd hfinishes (not_finishes hend hrecursion)

/-- One more attempt, given what the attempts after it come to. -/
theorem runAgent_step {notify : Bool} {prompt : String} {remaining : Nat}
    (hretry : maxLLMRetries - (remaining + 1) < maxLLMRetries - 1 → ∀ s tr,
      (runAgent notify request prompt remaining).Ends s tr r s' → Answers s tr r s')
    (h : (runAgent notify request prompt (remaining + 1)).Ends s tr r s') : Answers s tr r s' := by
  rcases Effect.ends_tryCatch h with ⟨a, rfl, h₁⟩ | ⟨tr₁, tr₂, exc, s₁, rfl, h₁, h₂⟩
  · cases runAttempt_answer h₁ with
    | done hend hresult => exact Or.inl ⟨rfl, Or.inl hend, hresult⟩
  · cases runAttempt_answer h₁ with
    | failed hend hkept =>
      dsimp only at h₂
      split at h₂
      · next hrecursion =>
        obtain ⟨rfl, rfl, rfl⟩ := Effect.ends_modify h₂
        rw [List.append_nil]
        refine Or.inl ⟨rfl, Or.inr ⟨exc, hend, hrecursion⟩, ?_⟩
        rw [hkept]
        exact (if_pos hrecursion).symm
      · next hother =>
        have hrecursion : isRecursion exc = false := Bool.eq_false_iff.mpr hother
        split at h₂
        · next hagain =>
          obtain ⟨tr₃, tr₄, _, s₂, rfl, h₃, h₄⟩ := (report_returns _ _ _ _).ends_bind h₂
          obtain ⟨rfl, hreport⟩ := (report_makes Locally.prepares _ _ _ _).apart Prepares.apart h₃
          obtain ⟨_, tr₅, rfl, h₅⟩ := Effect.ends_call_bind h₄
          have hlater := hretry hagain.2 _ _ h₅
          rw [← List.singleton_append]
          apply Answers.retried hend hrecursion hkept
          apply Answers.after hreport
          apply Answers.after _ hlater
          intro e he
          rw [List.mem_singleton.mp he]
          rfl
        · obtain ⟨rfl, hr⟩ := Program.runs_ret.mp h₂
          cases hr
          rw [List.append_nil]
          exact Or.inr ⟨exc, rfl, not_finishes hend hrecursion⟩

/-- The agent finishes exactly if no exception comes out of it, and the messages that are
kept are those it answered with. -/
theorem runAgent_answers {notify : Bool} {prompt : String} {remaining : Nat}
    (h : (runAgent notify request prompt (remaining + 1)).Ends s tr r s') : Answers s tr r s' := by
  induction remaining generalizing s tr with
  | zero =>
    apply runAgent_step _ h
    intro hagain
    simp [maxLLMRetries] at hagain
  | succ remaining ih => exact runAgent_step (fun _ _ _ => ih) h

end Attempts

end BulletFarm.Worker
