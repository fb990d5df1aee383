import BulletFarm.Interaction.Triple

/-!
# Monitors

A monitor watches a run from the outside: its state says which call may come next, and the
answer to a call moves it on. `Obeys` is the rule for a block whose calls a monitor allows,
whatever they are answered.
-/

namespace Interaction

set_option autoImplicit false

variable {ε Op σ α β M : Type} {Resp : Op → Type}

structure Monitor (Op : Type) (Resp : Op → Type) (M : Type) where
  allows : M → Op → Prop
  next : M → (o : Op) → Resp o → M

namespace Monitor
variable (mon : Monitor Op Resp M)

/-- Where the calls of a trace take the monitor. -/
def after : M → List (Event Resp) → M
  | m, [] => m
  | m, e :: tr => after (mon.next m e.1 e.2) tr

/-- Every call of the trace is allowed when it is made. -/
def Accepts : M → List (Event Resp) → Prop
  | _, [] => True
  | m, e :: tr => mon.allows m e.1 ∧ Accepts (mon.next m e.1 e.2) tr

instance decidableAccepts [∀ m o, Decidable (mon.allows m o)] :
    ∀ m tr, Decidable (mon.Accepts m tr)
  | _, [] => isTrue trivial
  | m, e :: tr =>
    have := decidableAccepts (mon.next m e.1 e.2) tr
    inferInstanceAs (Decidable (mon.allows m e.1 ∧ mon.Accepts (mon.next m e.1 e.2) tr))

@[simp] theorem after_append (m : M) (tr₁ tr₂ : List (Event Resp)) :
    mon.after m (tr₁ ++ tr₂) = mon.after (mon.after m tr₁) tr₂ := by
  induction tr₁ generalizing m with
  | nil => rfl
  | cons e tr₁ ih => exact ih _

theorem accepts_append {m : M} {tr₁ tr₂ : List (Event Resp)} :
    mon.Accepts m (tr₁ ++ tr₂) ↔ mon.Accepts m tr₁ ∧ mon.Accepts (mon.after m tr₁) tr₂ := by
  induction tr₁ generalizing m with
  | nil => exact ⟨fun h => ⟨trivial, h⟩, fun h => h.2⟩
  | cons e tr₁ ih =>
    constructor
    · rintro ⟨hfirst, hrest⟩
      obtain ⟨h₁, h₂⟩ := ih.mp hrest
      exact ⟨⟨hfirst, h₁⟩, h₂⟩
    · rintro ⟨⟨hfirst, h₁⟩, h₂⟩
      exact ⟨hfirst, ih.mpr ⟨h₁, h₂⟩⟩

/-- What keeps the monitor where it is, and is allowed there, is accepted. -/
theorem accepts_keeps {P : M → Prop} {ok : Op → Prop}
    (hkeeps : ∀ {m o}, P m → ok o → mon.allows m o ∧ ∀ r, P (mon.next m o r))
    {m : M} {tr : List (Event Resp)} (hm : P m) (htr : ∀ e ∈ tr, ok e.1) :
    mon.Accepts m tr ∧ P (mon.after m tr) := by
  induction tr generalizing m with
  | nil => exact ⟨trivial, hm⟩
  | cons e tr ih =>
    obtain ⟨hallows, hnext⟩ := hkeeps hm (htr e List.mem_cons_self)
    obtain ⟨h₁, h₂⟩ := ih (hnext e.2) fun e' he' => htr e' (List.mem_cons_of_mem _ he')
    exact ⟨⟨hallows, h₁⟩, h₂⟩

end Monitor

namespace Effect

/-- Started where the monitor satisfies `P`, the block makes only calls that are allowed, and
leaves the monitor as `R` says if it gives a value, and as `E` says if it raises. -/
def Obeys (mon : Monitor Op Resp M) (P : M → Prop) (b : Effect ε Op Resp σ α)
    (R : α → M → Prop) (E : ε → M → Prop) : Prop :=
  ∀ ⦃s tr r s' m⦄, P m → b.Ends s tr r s' →
    mon.Accepts m tr ∧ (∀ a, r = .ok a → R a (mon.after m tr)) ∧
      ∀ e, r = .error e → E e (mon.after m tr)

namespace Obeys
variable {mon : Monitor Op Resp M} {P : M → Prop} {E : ε → M → Prop}

theorem pure {R : α → M → Prop} (a : α) (h : ∀ m, P m → R a m) :
    Obeys mon P (pure a : Effect ε Op Resp σ α) R E := by
  intro s tr r s' m hm hend
  obtain ⟨rfl, rfl, rfl⟩ := ends_pure hend
  refine ⟨trivial, fun b hb => ?_, fun e he => ?_⟩
  · cases hb
    exact h m hm
  · cases he

theorem throw {R : α → M → Prop} (e : ε) (h : ∀ m, P m → E e m) :
    Obeys mon P (throw e : Effect ε Op Resp σ α) R E := by
  intro s tr r s' m hm hend
  obtain ⟨rfl, rfl, rfl⟩ := ends_ofExcept (x := .error e) hend
  refine ⟨trivial, fun b hb => ?_, fun e' he => ?_⟩
  · cases hb
  · cases he
    exact h m hm

theorem get : Obeys mon P (get : Effect ε Op Resp σ σ) (fun _ => P) E := by
  intro s tr r s' m hm hend
  obtain ⟨rfl, rfl, rfl⟩ := ends_get hend
  refine ⟨trivial, fun _ _ => hm, fun e he => ?_⟩
  cases he

theorem modify (f : σ → σ) :
    Obeys mon P (modify f : Effect ε Op Resp σ Unit) (fun _ => P) E := by
  intro s tr r s' m hm hend
  obtain ⟨rfl, rfl, rfl⟩ := ends_modify hend
  refine ⟨trivial, fun _ _ => hm, fun e he => ?_⟩
  cases he

theorem attempt {R : α → M → Prop} {o : Op} {f : Resp o → Except ε α}
    (hallows : ∀ m, P m → mon.allows m o)
    (hok : ∀ m x a, P m → f x = .ok a → R a (mon.next m o x))
    (herror : ∀ m x e, P m → f x = .error e → E e (mon.next m o x)) :
    Obeys mon P (attempt o f : Effect ε Op Resp σ α) R E := by
  intro s tr r s' m hm hend
  obtain ⟨x, rfl, rfl, rfl⟩ := ends_attempt hend
  exact ⟨⟨hallows m hm, trivial⟩, fun a ha => hok m x a hm ha, fun e he => herror m x e hm he⟩

theorem bind {b : Effect ε Op Resp σ α} {f : α → Effect ε Op Resp σ β} {R : α → M → Prop}
    {Q : β → M → Prop} (hb : Obeys mon P b R E) (hf : ∀ a, Obeys mon (R a) (f a) Q E) :
    Obeys mon P (b >>= f) Q E := by
  intro s tr r s' m hm hend
  rcases ends_bind hend with ⟨tr₁, tr₂, a, s₁, rfl, h₁, h₂⟩ | ⟨e, rfl, h₁⟩
  · obtain ⟨haccepts, hok, _⟩ := hb hm h₁
    obtain ⟨haccepts', hrest⟩ := hf a (hok a rfl) h₂
    rw [mon.after_append]
    exact ⟨mon.accepts_append.mpr ⟨haccepts, haccepts'⟩, hrest⟩
  · obtain ⟨haccepts, _, herror⟩ := hb hm h₁
    refine ⟨haccepts, fun a ha => ?_, fun e' he => ?_⟩
    · cases ha
    · cases he
      exact herror e rfl

theorem tryCatch {b : Effect ε Op Resp σ α} {f : ε → Effect ε Op Resp σ α} {R : α → M → Prop}
    {F : ε → M → Prop} (hb : Obeys mon P b R F) (hf : ∀ e, Obeys mon (F e) (f e) R E) :
    Obeys mon P (tryCatch b f) R E := by
  intro s tr r s' m hm hend
  rcases ends_tryCatch hend with ⟨a, rfl, h₁⟩ | ⟨tr₁, tr₂, e, s₁, rfl, h₁, h₂⟩
  · obtain ⟨haccepts, hok, _⟩ := hb hm h₁
    refine ⟨haccepts, hok, fun e he => ?_⟩
    cases he
  · obtain ⟨haccepts, _, herror⟩ := hb hm h₁
    obtain ⟨haccepts', hrest⟩ := hf e (herror e rfl) h₂
    rw [mon.after_append]
    exact ⟨mon.accepts_append.mpr ⟨haccepts, haccepts'⟩, hrest⟩

theorem ite {c : Prop} [Decidable c] {b b' : Effect ε Op Resp σ α} {R : α → M → Prop}
    (hb : c → Obeys mon P b R E) (hb' : ¬ c → Obeys mon P b' R E) :
    Obeys mon P (if c then b else b') R E := by
  split
  · next hc => exact hb hc
  · next hc => exact hb' hc

theorem mono {P' : M → Prop} {R R' : α → M → Prop} {E' : ε → M → Prop}
    {b : Effect ε Op Resp σ α} (hb : Obeys mon P b R E) (hP : ∀ m, P' m → P m)
    (hR : ∀ a m, R a m → R' a m) (hE : ∀ e m, E e m → E' e m) : Obeys mon P' b R' E' := by
  intro s tr r s' m hm hend
  obtain ⟨haccepts, hok, herror⟩ := hb (hP m hm) hend
  exact ⟨haccepts, fun a ha => hR a _ (hok a ha), fun e he => hE e _ (herror e he)⟩

/-- A block whose calls keep the monitor where it is. -/
theorem keeps {ok : Op → Prop} {b : Effect ε Op Resp σ α} (hb : Calls ok b)
    (hkeeps : ∀ {m o}, P m → ok o → mon.allows m o ∧ ∀ r, P (mon.next m o r)) :
    Obeys mon P b (fun _ => P) fun _ => P := by
  intro s tr r s' m hm hend
  obtain ⟨haccepts, hafter⟩ := mon.accepts_keeps hkeeps hm (hb _ _ _ _ hend)
  exact ⟨haccepts, fun _ _ => hafter, fun _ _ => hafter⟩

/-- A block that never raises. -/
theorem returns {b : Effect ε Op Resp σ α} {R : α → M → Prop} (hreturns : Returns b)
    (hb : Obeys mon P b R fun _ _ => True) : Obeys mon P b R E := by
  intro s tr r s' m hm hend
  obtain ⟨haccepts, hok, _⟩ := hb hm hend
  refine ⟨haccepts, hok, fun e he => ?_⟩
  obtain ⟨a, ha⟩ := hreturns _ _ _ _ hend
  rw [ha] at he
  cases he

end Obeys

end Effect

end Interaction
