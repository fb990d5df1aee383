import BulletFarm.Interaction.Effect

/-!
# What a block makes of a world

A block whose calls a world answers, moving as it does so. `Within` says what holds
of the result, of the local state and of the world once the block has ended; there
is one rule for each way of building a block.
-/

namespace Interaction

set_option autoImplicit false

variable {ε Op σ α β W : Type} {Resp : Op → Type}

namespace Effect

/-- However the block ends that starts in state `s` and world `w`, `Q` holds at its end. -/
def Within (answer : W → (o : Op) → Resp o → W → Prop) (w : W) (s : σ) (m : Effect ε Op Resp σ α)
    (Q : Except ε α → σ → W → Prop) : Prop :=
  ∀ tr r s' w', m.Ends s tr r s' → Threads answer w tr w' → Q r s' w'

namespace Within
variable {answer : W → (o : Op) → Resp o → W → Prop} {w : W} {s : σ}

theorem mono {m : Effect ε Op Resp σ α} {P Q : Except ε α → σ → W → Prop}
    (hm : Within answer w s m P) (h : ∀ r s' w', P r s' w' → Q r s' w') : Within answer w s m Q :=
  fun _ _ _ _ hend hw => h _ _ _ (hm _ _ _ _ hend hw)

theorem pure {Q : Except ε α → σ → W → Prop} {a : α} (h : Q (.ok a) s w) :
    Within answer w s (pure a : Effect ε Op Resp σ α) Q := by
  intro tr r s' w' hend hw
  obtain ⟨rfl, rfl, rfl⟩ := ends_pure hend
  rw [hw.of_nil]
  exact h

theorem attempt {Q : Except ε α → σ → W → Prop} {o : Op} {f : Resp o → Except ε α}
    (h : ∀ x w', answer w o x w' → Q (f x) s w') :
    Within answer w s (attempt o f : Effect ε Op Resp σ α) Q := by
  intro tr r s' w' hend hw
  obtain ⟨x, rfl, rfl, rfl⟩ := ends_attempt hend
  obtain ⟨w₁, ha, hw⟩ := hw.of_cons
  rw [hw.of_nil]
  exact h x w₁ ha

theorem bind {m : Effect ε Op Resp σ α} {f : α → Effect ε Op Resp σ β}
    {P : Except ε α → σ → W → Prop} {Q : Except ε β → σ → W → Prop} (hm : Within answer w s m P)
    (hok : ∀ a s' w', P (.ok a) s' w' → Within answer w' s' (f a) Q)
    (herror : ∀ e s' w', P (.error e) s' w' → Q (.error e) s' w') :
    Within answer w s (m >>= f) Q := by
  intro tr r s' w' hend hw
  rcases ends_bind hend with ⟨tr₁, tr₂, a, s₁, rfl, h₁, h₂⟩ | ⟨e, rfl, h₁⟩
  · obtain ⟨w₁, hw₁, hw₂⟩ := hw.of_append
    exact hok a s₁ w₁ (hm _ _ _ _ h₁ hw₁) _ _ _ _ h₂ hw₂
  · exact herror e s' w' (hm _ _ _ _ h₁ hw)

/-- A block that gives a value and leaves the world and the state as they are. -/
theorem skip {m : Effect ε Op Resp σ α} {f : α → Effect ε Op Resp σ β}
    {Q : Except ε β → σ → W → Prop}
    (hm : Within answer w s m fun r s' w' => (∃ a, r = .ok a) ∧ s' = s ∧ w' = w)
    (hf : ∀ a, Within answer w s (f a) Q) : Within answer w s (m >>= f) Q := by
  refine Within.bind hm ?_ ?_
  · rintro a s' w' ⟨_, rfl, rfl⟩
    exact hf a
  · rintro e s' w' ⟨⟨a, ha⟩, _⟩
    cases ha

/-- A block that gives a value and leaves a state that satisfies `P`. -/
theorem returns {m : Effect ε Op Resp σ α} {f : α → Effect ε Op Resp σ β} {P : σ → Prop}
    {Q : Except ε β → σ → W → Prop}
    (hm : Within answer w s m fun r s' _ => (∃ a, r = .ok a) ∧ P s')
    (hf : ∀ a s' w', P s' → Within answer w' s' (f a) Q) : Within answer w s (m >>= f) Q := by
  refine Within.bind hm ?_ ?_
  · rintro a s' w' ⟨_, hs'⟩
    exact hf a s' w' hs'
  · rintro e s' w' ⟨⟨a, ha⟩, _⟩
    cases ha

theorem ite {c : Prop} [Decidable c] {m m' : Effect ε Op Resp σ α} {Q : Except ε α → σ → W → Prop}
    (hm : c → Within answer w s m Q) (hm' : ¬ c → Within answer w s m' Q) :
    Within answer w s (if c then m else m') Q := by
  split
  · next hc => exact hm hc
  · next hc => exact hm' hc

end Within

/-- However it ends, the block makes only calls that satisfy `ok`. -/
def Calls (ok : Op → Prop) (m : Effect ε Op Resp σ α) : Prop :=
  Moves (fun _ tr _ => ∀ e ∈ tr, ok e.1) m

theorem Calls.composes (ok : Op → Prop) :
    Composes (fun (_ : σ) (tr : List (Event Resp)) (_ : σ) => ∀ e ∈ tr, ok e.1) where
  refl s := by
    intro e he
    cases he
  trans h₁ h₂ := by
    intro e he
    rcases List.mem_append.mp he with he | he
    · exact h₁ e he
    · exact h₂ e he

/-- Started in a world that satisfies `P`, the block satisfies `Q` if it gives a value. -/
def Triple (answer : W → (o : Op) → Resp o → W → Prop) (P : W → Prop) (m : Effect ε Op Resp σ α)
    (Q : α → W → Prop) : Prop :=
  ∀ ⦃s tr a s' w w'⦄, P w → m.Ends s tr (.ok a) s' → Threads answer w tr w' → Q a w'

namespace Triple
variable {answer : W → (o : Op) → Resp o → W → Prop} {P : W → Prop}

theorem bind {m : Effect ε Op Resp σ α} {f : α → Effect ε Op Resp σ β} {R : α → W → Prop}
    {Q : β → W → Prop} (hm : Triple answer P m R) (hf : ∀ a, Triple answer (R a) (f a) Q) :
    Triple answer P (m >>= f) Q := by
  intro s tr b s' w w' hw hend hthreads
  rcases ends_bind hend with ⟨tr₁, tr₂, a, s₁, rfl, h₁, h₂⟩ | ⟨e, he, _⟩
  · obtain ⟨w₁, hw₁, hw₂⟩ := hthreads.of_append
    exact hf a (hm hw h₁ hw₁) h₂ hw₂
  · cases he

theorem attempt {o : Op} {f : Resp o → Except ε α} {Q : α → W → Prop}
    (h : ∀ w x w' a, P w → answer w o x w' → f x = .ok a → Q a w') :
    Triple answer P (attempt o f : Effect ε Op Resp σ α) Q := by
  intro s tr a s' w w' hw hend hthreads
  obtain ⟨x, rfl, ha, rfl⟩ := ends_attempt hend
  obtain ⟨w₁, hanswer, hnil⟩ := hthreads.of_cons
  rw [hnil.of_nil]
  exact h w x w₁ a hw hanswer ha.symm

theorem mono {m : Effect ε Op Resp σ α} {Q Q' : α → W → Prop} (hm : Triple answer P m Q)
    (h : ∀ a w, Q a w → Q' a w) : Triple answer P m Q' :=
  fun _ _ _ _ _ _ hw hend hthreads => h _ _ (hm hw hend hthreads)

theorem ite {c : Prop} [Decidable c] {m m' : Effect ε Op Resp σ α} {Q : α → W → Prop}
    (hm : Triple answer P m Q) (hm' : Triple answer P m' Q) :
    Triple answer P (if c then m else m') Q := by
  split
  · exact hm
  · exact hm'

/-- What the answers to the calls of a block keep, the block keeps. -/
theorem keeps {ok : Op → Prop} {m : Effect ε Op Resp σ α} (hm : Calls ok m)
    (hkeeps : ∀ {w o r w'}, ok o → answer w o r w' → P w → P w') :
    Triple answer P m fun _ => P := by
  intro s tr a s' w w' hw hend hthreads
  have htr := hm _ _ _ _ hend
  clear hend
  induction hthreads with
  | nil w => exact hw
  | @cons w w₁ w₂ o r tr hanswer _ ih =>
    apply ih (hkeeps (htr _ List.mem_cons_self) hanswer hw)
    exact fun e he => htr e (List.mem_cons_of_mem _ he)

end Triple

/-- The block never raises as long as its answers satisfy `ok`. -/
def ReturnsIf (ok : Event Resp → Prop) (m : Effect ε Op Resp σ α) : Prop :=
  ∀ s tr r s', m.Ends s tr r s' → (∀ e ∈ tr, ok e) → ∃ a, r = .ok a

namespace ReturnsIf
variable {ok : Event Resp → Prop}

theorem pure (a : α) : ReturnsIf ok (pure a : Effect ε Op Resp σ α) := by
  intro s tr r s' h _
  exact ⟨a, (ends_pure h).2.1⟩

theorem attempt {o : Op} {f : Resp o → Except ε α} (h : ∀ x, ok ⟨o, x⟩ → ∃ a, f x = .ok a) :
    ReturnsIf ok (attempt o f : Effect ε Op Resp σ α) := by
  intro s tr r s' hend htr
  obtain ⟨x, rfl, rfl, rfl⟩ := ends_attempt hend
  exact h x (htr _ List.mem_cons_self)

theorem bind {m : Effect ε Op Resp σ α} {f : α → Effect ε Op Resp σ β} (hm : ReturnsIf ok m)
    (hf : ∀ a, ReturnsIf ok (f a)) : ReturnsIf ok (m >>= f) := by
  intro s tr r s' h htr
  rcases ends_bind h with ⟨tr₁, tr₂, a, s₁, rfl, _, h₂⟩ | ⟨e, rfl, h₁⟩
  · exact hf a _ _ _ _ h₂ fun e he => htr e (List.mem_append_right _ he)
  · obtain ⟨a, ha⟩ := hm _ _ _ _ h₁ htr
    cases ha

theorem tryCatch {m : Effect ε Op Resp σ α} {f : ε → Effect ε Op Resp σ α} (hm : ReturnsIf ok m) :
    ReturnsIf ok (tryCatch m f) := by
  intro s tr r s' h htr
  rcases ends_tryCatch h with ⟨a, rfl, _⟩ | ⟨tr₁, tr₂, e, s₁, rfl, h₁, _⟩
  · exact ⟨a, rfl⟩
  · obtain ⟨a, ha⟩ := hm _ _ _ _ h₁ fun e he => htr e (List.mem_append_left _ he)
    cases ha

theorem ite {c : Prop} [Decidable c] {m m' : Effect ε Op Resp σ α} (hm : ReturnsIf ok m)
    (hm' : ReturnsIf ok m') : ReturnsIf ok (if c then m else m') := by
  split
  · exact hm
  · exact hm'

end ReturnsIf

end Effect

/-! ## Programs -/

namespace Program
variable {answer : W → (o : Op) → Resp o → W → Prop}

/-- However the program is answered from world `w` on, `Q` holds at its end. -/
def Within (answer : W → (o : Op) → Resp o → W → Prop) (Q : α → W → Prop) :
    Program Op Resp α → W → Prop
  | .ret a, w => Q a w
  | .call o next, w => ∀ r w', answer w o r w' → (next r).Within answer Q w'

namespace Within

theorem runs {Q : α → W → Prop} {p : Program Op Resp α} {w w' : W} {tr : List (Event Resp)} {a : α}
    (hp : p.Within answer Q w) (hrun : p.Runs tr a) (hw : Threads answer w tr w') : Q a w' := by
  induction hrun generalizing w with
  | ret a =>
    rw [hw.of_nil]
    exact hp
  | call r _ ih =>
    obtain ⟨w₁, ha, hw⟩ := hw.of_cons
    exact ih (hp r w₁ ha) hw

theorem mono {Q Q' : α → W → Prop} {p : Program Op Resp α} {w : W} (hp : p.Within answer Q w)
    (h : ∀ a w', Q a w' → Q' a w') : p.Within answer Q' w := by
  induction p generalizing w with
  | ret a => exact h a w hp
  | call o next ih => exact fun r w' ha => ih r (hp r w' ha)

theorem bind {P : α → W → Prop} {Q : β → W → Prop} {p : Program Op Resp α}
    {f : α → Program Op Resp β} {w : W} (hp : p.Within answer P w)
    (hf : ∀ a w', P a w' → (f a).Within answer Q w') : (p >>= f).Within answer Q w := by
  induction p generalizing w with
  | ret a => exact hf a w hp
  | call o next ih => exact fun r w' ha => ih r (hp r w' ha)

end Within

end Program

end Interaction
