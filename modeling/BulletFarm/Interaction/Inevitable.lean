import BulletFarm.Interaction.Environment

/-!
# What a program cannot avoid

As long as the answers are of one kind, a program may have to come to a call and an answer
of another kind. Where every turn that does so lowers a potential, and nothing raises it,
enough turns bring the system to rest, whatever happens between them.
-/

namespace Interaction

set_option autoImplicit false

open Relation

variable {Op : Type} {Resp : Op → Type} {α β W S : Type}

namespace Program

/-- Answered by events of `ok` only, the program comes to an event of `goal`. -/
def Comes (ok goal : Event Resp → Prop) : Program Op Resp α → Prop
  | .ret _ => False
  | .call o next => ∀ r, ok ⟨o, r⟩ → goal ⟨o, r⟩ ∨ (next r).Comes ok goal

section Comes
variable {ok goal : Event Resp → Prop}

/-- What comes before does not matter. -/
theorem Comes.after (p : Program Op Resp α) {f : α → Program Op Resp β}
    (hf : ∀ a, (f a).Comes ok goal) : (p >>= f).Comes ok goal := by
  induction p with
  | ret a => exact hf a
  | call o next ih => exact fun r _ => Or.inr (ih r)

theorem Comes.runs {p : Program Op Resp α} (hp : p.Comes ok goal) {tr : List (Event Resp)} {a : α}
    (h : p.Runs tr a) (hok : ∀ e ∈ tr, ok e) : ∃ e ∈ tr, goal e := by
  induction h with
  | ret a => exact hp.elim
  | @call o next tr a r _ ih =>
    rcases hp r (hok _ List.mem_cons_self) with hgoal | hrest
    · exact ⟨_, List.mem_cons_self, hgoal⟩
    · obtain ⟨e, he, hgoal⟩ := ih hrest fun e he => hok e (List.mem_cons_of_mem _ he)
      exact ⟨e, List.mem_cons_of_mem _ he, hgoal⟩

end Comes

end Program

/-- Calls and the world's own moves lead from one world to another. -/
def Environment.Leads (env : Environment Op Resp W) : W → W → Prop :=
  ReflTransGen fun w w' => env.drift w w' ∨ ∃ o r, env.answer w o r w'

namespace Executes
variable {env : Environment Op Resp W} {p : Program Op Resp α} {w w' : W}
  {tr : List (Event Resp)} {a : α}

theorem leads (h : Executes env p w tr a w') : env.Leads w w' := by
  induction h with
  | ret a w => exact .refl
  | call ha _ ih => exact .head (Or.inr ⟨_, _, ha⟩) ih
  | drift hd _ ih => exact .head (Or.inl hd) ih

/-- The worlds around an event of a run. -/
theorem leads_event (h : Executes env p w tr a w') {o : Op} {r : Resp o}
    (he : (⟨o, r⟩ : Event Resp) ∈ tr) :
    ∃ w₁ w₂, env.Leads w w₁ ∧ env.answer w₁ o r w₂ ∧ env.Leads w₂ w' := by
  induction h with
  | ret a w => cases he
  | @call o' next w w₁ w₂ r' tr a ha hn ih =>
    rcases List.mem_cons.mp he with heq | he
    · cases heq
      exact ⟨w, w₁, .refl, ha, hn.leads⟩
    · obtain ⟨w₃, w₄, h₃, hans, h₄⟩ := ih he
      exact ⟨w₃, w₄, .head (Or.inr ⟨_, _, ha⟩) h₃, hans, h₄⟩
  | drift hd _ ih =>
    obtain ⟨w₃, w₄, h₃, hans, h₄⟩ := ih he
    exact ⟨w₃, w₄, .head (Or.inl hd) h₃, hans, h₄⟩

end Executes

theorem Pool.Step.leads {ι : Type} [DecidableEq ι] {env : Environment Op Resp W}
    {entry : ι → Program Op Resp α} {c c' : Pool ι Op Resp α W} (h : Pool.Step env entry c c') :
    env.Leads c.world c'.world := by
  cases h with
  | start i _ => exact .refl
  | call _ ha => exact .single (Or.inr ⟨_, _, ha⟩)
  | stop i => exact .refl
  | drift hd => exact .single (Or.inl hd)

/-- A run with `n` turns, and any steps before, between and after them. -/
inductive Turns (step turn : S → S → Prop) : Nat → S → S → Prop where
  | refl (s : S) : Turns step turn 0 s s
  | step {n : Nat} {s s' s'' : S} : Turns step turn n s s' → step s' s'' → Turns step turn n s s''
  | turn {n : Nat} {s s' s'' : S} : Turns step turn n s s' → turn s' s'' →
      Turns step turn (n + 1) s s''

namespace Turns
variable {step turn : S → S → Prop}

theorem trans {m n : Nat} {s s' s'' : S} (h : Turns step turn m s s')
    (h' : Turns step turn n s' s'') : Turns step turn (m + n) s s'' := by
  induction h' with
  | refl s => exact h
  | step _ hstep ih => exact (ih h).step hstep
  | turn _ hturn ih => exact (ih h).turn hturn

/-- Steps do not raise the potential, a turn lowers it or finds the system at rest. -/
theorem descends (inv rest : S → Prop) (potential : S → Nat)
    (hstep : ∀ s s', inv s → step s s' →
      inv s' ∧ potential s' ≤ potential s ∧ (rest s → rest s'))
    (hturn : ∀ s s', inv s → turn s s' →
      inv s' ∧ (potential s' < potential s ∨ rest s') ∧ (rest s → rest s'))
    {n : Nat} {s s' : S} (h : Turns step turn n s s') (hs : inv s) :
    inv s' ∧ (n + potential s' ≤ potential s ∨ rest s') := by
  induction h with
  | refl s => exact ⟨hs, Or.inl (by omega)⟩
  | step _ hst ih =>
    obtain ⟨hinv, hih⟩ := ih hs
    obtain ⟨hinv', hle, hrest⟩ := hstep _ _ hinv hst
    exact ⟨hinv', hih.imp (fun hsum => by omega) hrest⟩
  | turn _ htn ih =>
    obtain ⟨hinv, hih⟩ := ih hs
    obtain ⟨hinv', hlower, hrest⟩ := hturn _ _ hinv htn
    refine ⟨hinv', ?_⟩
    rcases hih with hsum | hdone
    · exact hlower.imp_left fun hlt => by omega
    · exact Or.inr (hrest hdone)

end Turns

end Interaction
