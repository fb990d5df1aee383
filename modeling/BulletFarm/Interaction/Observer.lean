import BulletFarm.Interaction.Effect

/-!
# Runs that an observer cannot tell apart

An observer sees some of the calls and a part of the local state. Where the world
fixes the answers to the calls he sees and no other call moves it, `Agree` is the
rule for two programs whose runs look the same to him.
-/

namespace Interaction

set_option autoImplicit false

variable {ε Op σ γ α β W : Type} {Resp : Op → Type}

/-- The calls that are seen, which of their answers count as the same, and the part of
the local state that is seen. -/
structure Observer (Op : Type) (Resp : Op → Type) (σ γ : Type) where
  sees : Op → Bool
  same : (o : Op) → Resp o → Resp o → Prop
  view : σ → γ

namespace Observer
variable (obs : Observer Op Resp σ γ)

/-- The calls of a trace that are seen, in their order. -/
def seen (tr : List (Event Resp)) : List Op := (tr.map Sigma.fst).filter obs.sees

@[simp] theorem seen_nil : obs.seen [] = [] := rfl

@[simp] theorem seen_append (tr₁ tr₂ : List (Event Resp)) :
    obs.seen (tr₁ ++ tr₂) = obs.seen tr₁ ++ obs.seen tr₂ := by
  unfold seen
  rw [List.map_append, List.filter_append]

theorem seen_unseen {tr : List (Event Resp)} (h : ∀ e ∈ tr, obs.sees e.1 = false) :
    obs.seen tr = [] := by
  apply List.filter_eq_nil_iff.mpr
  intro o ho
  obtain ⟨e, he, rfl⟩ := List.mem_map.mp ho
  rw [h e he]
  exact Bool.false_ne_true

/-- The world fixes the answers to the calls that are seen; the others leave it alone. -/
structure Fixes (answer : W → (o : Op) → Resp o → W → Prop) : Prop where
  seen : ∀ {w w₁ w₂ : W} {o : Op} {r₁ r₂ : Resp o}, obs.sees o = true → answer w o r₁ w₁ →
    answer w o r₂ w₂ → obs.same o r₁ r₂ ∧ w₁ = w₂
  unseen : ∀ {w w' : W} {o : Op} {r : Resp o}, obs.sees o = false → answer w o r w' → w' = w

/-- However it ends, the block changes nothing that is seen. -/
def Unseen (m : Effect ε Op Resp σ α) : Prop :=
  Effect.Moves (fun s tr s' => obs.view s' = obs.view s ∧ ∀ e ∈ tr, obs.sees e.1 = false) m

theorem unseen_composes : Effect.Composes (fun (s : σ) (tr : List (Event Resp)) (s' : σ) =>
    obs.view s' = obs.view s ∧ ∀ e ∈ tr, obs.sees e.1 = false) where
  refl s := ⟨rfl, fun e he => by cases he⟩
  trans h₁ h₂ := by
    refine ⟨h₂.1.trans h₁.1, fun e he => ?_⟩
    rcases List.mem_append.mp he with he | he
    · exact h₁.2 e he
    · exact h₂.2 e he

/-- From states that look the same and in the same world, the two blocks end alike. -/
def Agree (answer : W → (o : Op) → Resp o → W → Prop) (m₁ m₂ : Effect ε Op Resp σ α) : Prop :=
  ∀ ⦃s₁ s₂ tr₁ tr₂ r₁ r₂ s₁' s₂' w w₁ w₂⦄, obs.view s₁ = obs.view s₂ → m₁.Ends s₁ tr₁ r₁ s₁' →
    m₂.Ends s₂ tr₂ r₂ s₂' → Threads answer w tr₁ w₁ → Threads answer w tr₂ w₂ →
    r₁ = r₂ ∧ obs.view s₁' = obs.view s₂' ∧ w₁ = w₂ ∧ obs.seen tr₁ = obs.seen tr₂

namespace Agree
variable {obs} {answer : W → (o : Op) → Resp o → W → Prop}

theorem ofExcept (x : Except ε α) :
    obs.Agree answer (Effect.ofExcept x : Effect ε Op Resp σ α) (Effect.ofExcept x) := by
  intro s₁ s₂ tr₁ tr₂ r₁ r₂ s₁' s₂' w w₁ w₂ hview h₁ h₂ hw₁ hw₂
  obtain ⟨rfl, rfl, rfl⟩ := Effect.ends_ofExcept h₁
  obtain ⟨rfl, rfl, rfl⟩ := Effect.ends_ofExcept h₂
  have hfirst := hw₁.of_nil
  have hsecond := hw₂.of_nil
  subst hfirst hsecond
  exact ⟨rfl, hview, rfl, rfl⟩

theorem pure (a : α) : obs.Agree answer (pure a : Effect ε Op Resp σ α) (pure a) := ofExcept (.ok a)

theorem throw (e : ε) : obs.Agree answer (throw e : Effect ε Op Resp σ α) (throw e) :=
  ofExcept (.error e)

theorem modify {f₁ f₂ : σ → σ}
    (hf : ∀ s₁ s₂, obs.view s₁ = obs.view s₂ → obs.view (f₁ s₁) = obs.view (f₂ s₂)) :
    obs.Agree answer (modify f₁ : Effect ε Op Resp σ Unit) (modify f₂) := by
  intro s₁ s₂ tr₁ tr₂ r₁ r₂ s₁' s₂' w w₁ w₂ hview h₁ h₂ hw₁ hw₂
  obtain ⟨rfl, rfl, rfl⟩ := Effect.ends_modify h₁
  obtain ⟨rfl, rfl, rfl⟩ := Effect.ends_modify h₂
  have hfirst := hw₁.of_nil
  have hsecond := hw₂.of_nil
  subst hfirst hsecond
  exact ⟨rfl, hf _ _ hview, rfl, rfl⟩

theorem get_bind {f₁ f₂ : σ → Effect ε Op Resp σ α}
    (hf : ∀ s₁ s₂, obs.view s₁ = obs.view s₂ → obs.Agree answer (f₁ s₁) (f₂ s₂)) :
    obs.Agree answer (get >>= f₁) (get >>= f₂) := by
  intro s₁ s₂ tr₁ tr₂ r₁ r₂ s₁' s₂' w w₁ w₂ hview h₁ h₂ hw₁ hw₂
  exact hf s₁ s₂ hview hview (Effect.ends_get_bind h₁) (Effect.ends_get_bind h₂) hw₁ hw₂

theorem bind {m₁ m₂ : Effect ε Op Resp σ α} {f₁ f₂ : α → Effect ε Op Resp σ β}
    (hm : obs.Agree answer m₁ m₂) (hf : ∀ a, obs.Agree answer (f₁ a) (f₂ a)) :
    obs.Agree answer (m₁ >>= f₁) (m₂ >>= f₂) := by
  intro s₁ s₂ tr₁ tr₂ r₁ r₂ s₁' s₂' w w₁ w₂ hview h₁ h₂ hw₁ hw₂
  rcases Effect.ends_bind h₁ with ⟨tr₃, tr₄, a, s₃, rfl, h₃, h₄⟩ | ⟨e, rfl, h₃⟩
  · obtain ⟨w₃, hw₃, hw₄⟩ := hw₁.of_append
    rcases Effect.ends_bind h₂ with ⟨tr₅, tr₆, b, s₅, rfl, h₅, h₆⟩ | ⟨e, rfl, h₅⟩
    · obtain ⟨w₅, hw₅, hw₆⟩ := hw₂.of_append
      obtain ⟨hr, hview', rfl, hseen⟩ := hm hview h₃ h₅ hw₃ hw₅
      cases hr
      obtain ⟨hr, hview', hw, hseen'⟩ := hf a hview' h₄ h₆ hw₄ hw₆
      exact ⟨hr, hview', hw, by rw [seen_append, seen_append, hseen, hseen']⟩
    · have hr := (hm hview h₃ h₅ hw₃ hw₂).1
      cases hr
  · rcases Effect.ends_bind h₂ with ⟨tr₅, tr₆, b, s₅, rfl, h₅, h₆⟩ | ⟨e', rfl, h₅⟩
    · obtain ⟨w₅, hw₅, hw₆⟩ := hw₂.of_append
      have hr := (hm hview h₃ h₅ hw₁ hw₅).1
      cases hr
    · obtain ⟨hr, hview', hw, hseen⟩ := hm hview h₃ h₅ hw₁ hw₂
      cases hr
      exact ⟨rfl, hview', hw, hseen⟩

theorem tryCatch {m₁ m₂ : Effect ε Op Resp σ α} {f₁ f₂ : ε → Effect ε Op Resp σ α}
    (hm : obs.Agree answer m₁ m₂) (hf : ∀ e, obs.Agree answer (f₁ e) (f₂ e)) :
    obs.Agree answer (tryCatch m₁ f₁) (tryCatch m₂ f₂) := by
  intro s₁ s₂ tr₁ tr₂ r₁ r₂ s₁' s₂' w w₁ w₂ hview h₁ h₂ hw₁ hw₂
  rcases Effect.ends_tryCatch h₁ with ⟨a, rfl, h₃⟩ | ⟨tr₃, tr₄, e, s₃, rfl, h₃, h₄⟩
  · rcases Effect.ends_tryCatch h₂ with ⟨b, rfl, h₅⟩ | ⟨tr₅, tr₆, e, s₅, rfl, h₅, h₆⟩
    · exact hm hview h₃ h₅ hw₁ hw₂
    · obtain ⟨w₅, hw₅, hw₆⟩ := hw₂.of_append
      have hr := (hm hview h₃ h₅ hw₁ hw₅).1
      cases hr
  · obtain ⟨w₃, hw₃, hw₄⟩ := hw₁.of_append
    rcases Effect.ends_tryCatch h₂ with ⟨b, rfl, h₅⟩ | ⟨tr₅, tr₆, e', s₅, rfl, h₅, h₆⟩
    · have hr := (hm hview h₃ h₅ hw₃ hw₂).1
      cases hr
    · obtain ⟨w₅, hw₅, hw₆⟩ := hw₂.of_append
      obtain ⟨hr, hview', rfl, hseen⟩ := hm hview h₃ h₅ hw₃ hw₅
      cases hr
      obtain ⟨hr, hview', hw, hseen'⟩ := hf e hview' h₄ h₆ hw₄ hw₆
      exact ⟨hr, hview', hw, by rw [seen_append, seen_append, hseen, hseen']⟩

theorem ite {c : Prop} [Decidable c] {m₁ m₂ m₁' m₂' : Effect ε Op Resp σ α}
    (h : obs.Agree answer m₁ m₂) (h' : obs.Agree answer m₁' m₂') :
    obs.Agree answer (if c then m₁ else m₁') (if c then m₂ else m₂') := by
  split
  · exact h
  · exact h'

section Fixed
variable (hfixes : obs.Fixes answer)
include hfixes

theorem attempt {o : Op} (ho : obs.sees o = true) {h₁ h₂ : Resp o → Except ε α}
    (hsame : ∀ r₁ r₂, obs.same o r₁ r₂ → h₁ r₁ = h₂ r₂) :
    obs.Agree answer (Effect.attempt o h₁ : Effect ε Op Resp σ α) (Effect.attempt o h₂) := by
  intro s₁ s₂ tr₁ tr₂ r₁ r₂ s₁' s₂' w w₁ w₂ hview hend₁ hend₂ hw₁ hw₂
  obtain ⟨x₁, rfl, rfl, rfl⟩ := Effect.ends_attempt hend₁
  obtain ⟨x₂, rfl, rfl, rfl⟩ := Effect.ends_attempt hend₂
  obtain ⟨w₃, ha₁, hw₁⟩ := hw₁.of_cons
  obtain ⟨w₄, ha₂, hw₂⟩ := hw₂.of_cons
  have hfirst := hw₁.of_nil
  have hsecond := hw₂.of_nil
  subst hfirst hsecond
  obtain ⟨hx, hw⟩ := hfixes.seen ho ha₁ ha₂
  exact ⟨hsame x₁ x₂ hx, hview, hw, rfl⟩

theorem call_bind {o : Op} (ho : obs.sees o = true) {f₁ f₂ : Resp o → Effect ε Op Resp σ α}
    (hf : ∀ r₁ r₂, obs.same o r₁ r₂ → obs.Agree answer (f₁ r₁) (f₂ r₂)) :
    obs.Agree answer (Effect.call o >>= f₁) (Effect.call o >>= f₂) := by
  intro s₁ s₂ tr₁ tr₂ r₁ r₂ s₁' s₂' w w₁ w₂ hview hend₁ hend₂ hw₁ hw₂
  obtain ⟨x₁, tr₃, rfl, h₁⟩ := Effect.ends_call_bind hend₁
  obtain ⟨x₂, tr₄, rfl, h₂⟩ := Effect.ends_call_bind hend₂
  obtain ⟨w₃, ha₁, hw₁⟩ := hw₁.of_cons
  obtain ⟨w₄, ha₂, hw₂⟩ := hw₂.of_cons
  obtain ⟨hx, rfl⟩ := hfixes.seen ho ha₁ ha₂
  obtain ⟨hr, hview', hw, hseen⟩ := hf x₁ x₂ hx hview h₁ h₂ hw₁ hw₂
  refine ⟨hr, hview', hw, ?_⟩
  have hcons : ∀ (x : Resp o) (tr : List (Event Resp)), obs.seen (⟨o, x⟩ :: tr) = o :: obs.seen tr :=
    fun x tr => List.filter_cons_of_pos ho
  rw [hcons, hcons, hseen]

/-- Two blocks that change nothing that is seen and give the same. -/
theorem unseen {m₁ m₂ : Effect ε Op Resp σ α} (h₁ : obs.Unseen m₁) (h₂ : obs.Unseen m₂)
    (x : Except ε α)
    (hx₁ : ∀ {s tr r s' w w'}, m₁.Ends s tr r s' → Threads answer w tr w' → r = x)
    (hx₂ : ∀ {s tr r s' w w'}, m₂.Ends s tr r s' → Threads answer w tr w' → r = x) :
    obs.Agree answer m₁ m₂ := by
  intro s₁ s₂ tr₁ tr₂ r₁ r₂ s₁' s₂' w w₁ w₂ hview hend₁ hend₂ hw₁ hw₂
  obtain ⟨hview₁, htr₁⟩ := h₁ _ _ _ _ hend₁
  obtain ⟨hview₂, htr₂⟩ := h₂ _ _ _ _ hend₂
  have hfirst : w₁ = w := hw₁.unchanged fun e he _ ha => hfixes.unseen (htr₁ e he) ha
  have hsecond : w₂ = w := hw₂.unchanged fun e he _ ha => hfixes.unseen (htr₂ e he) ha
  refine ⟨(hx₁ hend₁ hw₁).trans (hx₂ hend₂ hw₂).symm, ?_, hfirst.trans hsecond.symm, ?_⟩
  · rw [hview₁, hview₂, hview]
  · rw [obs.seen_unseen htr₁, obs.seen_unseen htr₂]

theorem skip {m₁ m₂ : Effect ε Op Resp σ α} {k₁ k₂ : Effect ε Op Resp σ β} (hm₁ : Effect.Returns m₁)
    (hm₂ : Effect.Returns m₂) (h₁ : obs.Unseen m₁) (h₂ : obs.Unseen m₂)
    (hk : obs.Agree answer k₁ k₂) :
    obs.Agree answer (m₁ >>= fun _ => k₁) (m₂ >>= fun _ => k₂) := by
  intro s₁ s₂ tr₁ tr₂ r₁ r₂ s₁' s₂' w w₁ w₂ hview hend₁ hend₂ hw₁ hw₂
  obtain ⟨tr₃, tr₄, _, s₃, rfl, h₃, h₄⟩ := hm₁.ends_bind hend₁
  obtain ⟨tr₅, tr₆, _, s₅, rfl, h₅, h₆⟩ := hm₂.ends_bind hend₂
  obtain ⟨hview₁, htr₁⟩ := h₁ _ _ _ _ h₃
  obtain ⟨hview₂, htr₂⟩ := h₂ _ _ _ _ h₅
  obtain ⟨w₃, hw₃, hw₄⟩ := hw₁.of_append
  obtain ⟨w₅, hw₅, hw₆⟩ := hw₂.of_append
  have hfirst : w₃ = w := hw₃.unchanged fun e he _ ha => hfixes.unseen (htr₁ e he) ha
  have hsecond : w₅ = w := hw₅.unchanged fun e he _ ha => hfixes.unseen (htr₂ e he) ha
  subst hfirst hsecond
  obtain ⟨hr, hview', hw, hseen⟩ := hk (by rw [hview₁, hview₂, hview]) h₄ h₆ hw₄ hw₆
  refine ⟨hr, hview', hw, ?_⟩
  rw [seen_append, seen_append, obs.seen_unseen htr₁, obs.seen_unseen htr₂, hseen]

end Fixed

end Agree

end Observer

end Interaction
