import Mathlib.Logic.Relation
import Mathlib.Data.List.Basic

/-!
# Programs that call an outside world

A program over a signature `Op` is a finite tree of calls: each call is answered
by a value of the type `Resp` gives it, and the answer decides what is called
next. Nothing here says who answers; `Environment` does.
-/

namespace Interaction

set_option autoImplicit false

/-- A program either returns or makes one call and goes on with its answer. -/
inductive Program (Op : Type) (Resp : Op → Type) (α : Type) : Type where
  | ret (a : α) : Program Op Resp α
  | call (o : Op) (next : Resp o → Program Op Resp α) : Program Op Resp α

abbrev Event {Op : Type} (Resp : Op → Type) : Type := (o : Op) × Resp o

namespace Program

variable {Op : Type} {Resp : Op → Type} {α β γ : Type}

def bind : Program Op Resp α → (α → Program Op Resp β) → Program Op Resp β
  | .ret a, f => f a
  | .call o next, f => .call o fun r => (next r).bind f

instance : Monad (Program Op Resp) where
  pure := .ret
  bind := .bind

def perform (o : Op) : Program Op Resp (Resp o) := .call o .ret

@[simp] theorem pure_eq (a : α) : (pure a : Program Op Resp α) = .ret a := rfl

@[simp] theorem ret_bind (a : α) (f : α → Program Op Resp β) :
    ((Program.ret a : Program Op Resp α) >>= f) = f a := rfl

@[simp] theorem call_bind (o : Op) (next : Resp o → Program Op Resp α)
    (f : α → Program Op Resp β) :
    (Program.call o next >>= f) = .call o fun r => next r >>= f := rfl

theorem bind_ret (p : Program Op Resp α) : (p >>= Program.ret) = p := by
  induction p with
  | ret a => rfl
  | call o next ih => exact congrArg (Program.call o) (funext ih)

@[simp] theorem bind_bind (p : Program Op Resp α) (f : α → Program Op Resp β)
    (g : β → Program Op Resp γ) : (p >>= f >>= g) = p >>= fun a => f a >>= g := by
  induction p with
  | ret a => rfl
  | call o next ih => exact congrArg (Program.call o) (funext ih)

instance : LawfulMonad (Program Op Resp) :=
  LawfulMonad.mk' _ (fun p => bind_ret p) (fun _ _ => rfl) (fun p f g => bind_bind p f g)

/-- Every call the program may make, whatever the answers, satisfies `ok`. -/
def Uses (ok : Op → Prop) : Program Op Resp α → Prop
  | .ret _ => True
  | .call o next => ok o ∧ ∀ r, (next r).Uses ok

section Uses
variable {ok ok' : Op → Prop}

@[simp] theorem uses_ret (a : α) : (Program.ret a : Program Op Resp α).Uses ok := trivial

@[simp] theorem uses_call (o : Op) (next : Resp o → Program Op Resp α) :
    (Program.call o next).Uses ok ↔ ok o ∧ ∀ r, (next r).Uses ok := Iff.rfl

theorem Uses.bind {p : Program Op Resp α} {f : α → Program Op Resp β}
    (hp : p.Uses ok) (hf : ∀ a, (f a).Uses ok) : (p >>= f).Uses ok := by
  induction p with
  | ret a => exact hf a
  | call o next ih => exact ⟨hp.1, fun r => ih r (hp.2 r)⟩

theorem Uses.mono {p : Program Op Resp α} (hp : p.Uses ok) (h : ∀ o, ok o → ok' o) :
    p.Uses ok' := by
  induction p with
  | ret a => trivial
  | call o next ih => exact ⟨h o hp.1, fun r => ih r (hp.2 r)⟩

end Uses

/-- `p.Runs tr a`: answered as in `tr`, the program returns `a`. -/
inductive Runs : Program Op Resp α → List (Event Resp) → α → Prop where
  | ret (a : α) : Runs (.ret a) [] a
  | call {o : Op} {next : Resp o → Program Op Resp α} {tr : List (Event Resp)} {a : α}
      (r : Resp o) : Runs (next r) tr a → Runs (.call o next) (⟨o, r⟩ :: tr) a

@[simp] theorem runs_ret {a b : α} {tr : List (Event Resp)} :
    (Program.ret a).Runs tr b ↔ tr = [] ∧ b = a := by
  constructor
  · intro h
    cases h
    exact ⟨rfl, rfl⟩
  · rintro ⟨rfl, rfl⟩
    exact .ret _

theorem runs_call {o : Op} {next : Resp o → Program Op Resp α} {tr : List (Event Resp)} {a : α} :
    (Program.call o next).Runs tr a ↔ ∃ r tr', tr = ⟨o, r⟩ :: tr' ∧ (next r).Runs tr' a := by
  constructor
  · intro h
    cases h with
    | call r h => exact ⟨r, _, rfl, h⟩
  · rintro ⟨r, tr', rfl, h⟩
    exact .call r h

theorem runs_bind {p : Program Op Resp α} {f : α → Program Op Resp β} {tr : List (Event Resp)}
    {b : β} : (p >>= f).Runs tr b ↔
      ∃ tr₁ tr₂ a, tr = tr₁ ++ tr₂ ∧ p.Runs tr₁ a ∧ (f a).Runs tr₂ b := by
  induction p generalizing tr with
  | ret a =>
    rw [ret_bind]
    constructor
    · exact fun h => ⟨[], tr, a, rfl, .ret a, h⟩
    · rintro ⟨tr₁, tr₂, a', rfl, h, h'⟩
      obtain ⟨rfl, rfl⟩ := runs_ret.mp h
      exact h'
  | call o next ih =>
    rw [call_bind, runs_call]
    constructor
    · rintro ⟨r, tr', rfl, h⟩
      obtain ⟨tr₁, tr₂, a, rfl, h₁, h₂⟩ := (ih r).mp h
      exact ⟨⟨o, r⟩ :: tr₁, tr₂, a, rfl, .call r h₁, h₂⟩
    · rintro ⟨tr₁, tr₂, a, rfl, h₁, h₂⟩
      obtain ⟨r, tr', rfl, h⟩ := runs_call.mp h₁
      exact ⟨r, tr' ++ tr₂, rfl, (ih r).mpr ⟨tr', tr₂, a, rfl, h, h₂⟩⟩

theorem Uses.runs {ok : Op → Prop} {p : Program Op Resp α} (hp : p.Uses ok)
    {tr : List (Event Resp)} {a : α} (h : p.Runs tr a) : ∀ e ∈ tr, ok e.1 := by
  induction h with
  | ret a => simp
  | call r _ ih =>
    intro e he
    rcases List.mem_cons.mp he with rfl | he
    · exact hp.1
    · exact ih (hp.2 r) e he

/-- After the calls of a trace the program goes on with calls that satisfy `ok`,
each with everything that was answered before it. -/
def Follows (ok : List (Event Resp) → Op → Prop) :
    Program Op Resp α → List (Event Resp) → Prop
  | .ret _, _ => True
  | .call o next, tr => ok tr o ∧ ∀ r, (next r).Follows ok (tr ++ [⟨o, r⟩])

section Follows
variable {ok ok' : List (Event Resp) → Op → Prop} {tr : List (Event Resp)}

@[simp] theorem follows_ret (a : α) : (Program.ret a : Program Op Resp α).Follows ok tr := trivial

@[simp] theorem follows_call (o : Op) (next : Resp o → Program Op Resp α) :
    (Program.call o next).Follows ok tr ↔
      ok tr o ∧ ∀ r, (next r).Follows ok (tr ++ [⟨o, r⟩]) := Iff.rfl

theorem Follows.bind {p : Program Op Resp α} {f : α → Program Op Resp β}
    (hp : p.Follows ok tr) (hf : ∀ tr' a, p.Runs tr' a → (f a).Follows ok (tr ++ tr')) :
    (p >>= f).Follows ok tr := by
  induction p generalizing tr with
  | ret a =>
    have hend := hf [] a (.ret a)
    rwa [List.append_nil] at hend
  | call o next ih =>
    refine ⟨hp.1, fun r => ih r (hp.2 r) ?_⟩
    intro tr' a h
    rw [List.append_assoc]
    exact hf _ a (.call r h)

theorem Follows.and {p : Program Op Resp α} (hp : p.Follows ok tr) (hp' : p.Follows ok' tr) :
    p.Follows (fun tr o => ok tr o ∧ ok' tr o) tr := by
  induction p generalizing tr with
  | ret a => trivial
  | call o next ih => exact ⟨⟨hp.1, hp'.1⟩, fun r => ih r (hp.2 r) (hp'.2 r)⟩

theorem Uses.follows {allowed : Op → Prop} {p : Program Op Resp α} (hp : p.Uses allowed)
    (h : ∀ tr' o, allowed o → ok (tr ++ tr') o) : p.Follows ok tr := by
  induction p generalizing tr with
  | ret a => trivial
  | call o next ih =>
    refine ⟨?_, fun r => ih r (hp.2 r) ?_⟩
    · have hfirst := h [] o hp.1
      rwa [List.append_nil] at hfirst
    · intro tr' o' ho'
      rw [List.append_assoc]
      exact h _ o' ho'

end Follows

/-- Answered as in `tr`, the program has come to `q`. -/
inductive Proceeds : Program Op Resp α → List (Event Resp) → Program Op Resp α → Prop where
  | refl (p : Program Op Resp α) : Proceeds p [] p
  | call {o : Op} {next : Resp o → Program Op Resp α} {tr : List (Event Resp)}
      {q : Program Op Resp α} (r : Resp o) : Proceeds (next r) tr q →
      Proceeds (.call o next) (⟨o, r⟩ :: tr) q

theorem Proceeds.next {p : Program Op Resp α} {tr : List (Event Resp)} {o : Op}
    {next : Resp o → Program Op Resp α} (h : p.Proceeds tr (.call o next)) (r : Resp o) :
    p.Proceeds (tr ++ [⟨o, r⟩]) (next r) := by
  generalize hq : Program.call o next = q at h
  induction h with
  | refl p =>
    subst hq
    exact .call r (.refl _)
  | call r' _ ih => exact .call r' (ih hq)

theorem Proceeds.runs {p : Program Op Resp α} {tr : List (Event Resp)} {a : α}
    (h : p.Proceeds tr (.ret a)) : p.Runs tr a := by
  generalize hq : Program.ret a = q at h
  induction h with
  | refl p =>
    subst hq
    exact .ret a
  | call r _ ih => exact .call r (ih hq)

/-- With some answer to every call, what has begun can be brought to an end. -/
theorem Proceeds.completes {p q : Program Op Resp α} {tr : List (Event Resp)}
    (h : p.Proceeds tr q) (answer : ∀ o, Resp o) : ∃ tr' a, p.Runs (tr ++ tr') a := by
  induction h with
  | refl p =>
    induction p with
    | ret a => exact ⟨[], a, .ret a⟩
    | call o next ih =>
      obtain ⟨tr', a, hrun⟩ := ih (answer o)
      exact ⟨⟨o, answer o⟩ :: tr', a, .call (answer o) hrun⟩
  | call r _ ih =>
    obtain ⟨tr', a, hrun⟩ := ih
    exact ⟨tr', a, .call r hrun⟩

/-- Whatever the answers, the program returns only values that satisfy `ok`. -/
def Yields (ok : α → Prop) : Program Op Resp α → Prop
  | .ret a => ok a
  | .call _ next => ∀ r, (next r).Yields ok

theorem Yields.bind {ok : β → Prop} (p : Program Op Resp α) {f : α → Program Op Resp β}
    (hf : ∀ a, (f a).Yields ok) : (p >>= f).Yields ok := by
  induction p with
  | ret a => exact hf a
  | call o next ih => exact fun r => ih r

theorem Yields.runs {ok : α → Prop} {p : Program Op Resp α} (hp : p.Yields ok)
    {tr : List (Event Resp)} {a : α} (h : p.Runs tr a) : ok a := by
  induction h with
  | ret a => exact hp
  | call r _ ih => exact ih (hp r)

end Program

end Interaction
