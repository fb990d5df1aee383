import BulletFarm.Interaction.Environment

/-!
# Programs with exceptions and local state

A program that may raise, and that changes a local state which survives an
exception. `Ends` says how a run of it may end; `Moves` is the rule for what
every step of it does to the state and to the trace, however it ends.
-/

namespace Interaction

set_option autoImplicit false

abbrev Effect (ε : Type) (Op : Type) (Resp : Op → Type) (σ α : Type) : Type :=
  ExceptT ε (StateT σ (Program Op Resp)) α

variable {ε Op σ α β : Type} {Resp : Op → Type}

namespace Effect

def call (o : Op) : Effect ε Op Resp σ (Resp o) := fun s => .call o fun r => .ret (.ok r, s)

/-- A call whose answer is a value or an exception. -/
def attempt (o : Op) (h : Resp o → Except ε α) : Effect ε Op Resp σ α :=
  fun s => .call o fun r => .ret (h r, s)

def ofExcept (r : Except ε α) : Effect ε Op Resp σ α := fun s => .ret (r, s)

/-- The program from a given state on. -/
def start (m : Effect ε Op Resp σ α) (s : σ) : Program Op Resp (Except ε α × σ) := m s

/-- How the rest of a block goes on. -/
def resume (f : α → Effect ε Op Resp σ β) (p : Except ε α × σ) : Program Op Resp (Except ε β × σ) :=
  match p.1 with
  | .ok a => (f a).start p.2
  | .error e => .ret (.error e, p.2)

/-- How a block goes on that handles its exceptions. -/
def recover (f : ε → Effect ε Op Resp σ α) (p : Except ε α × σ) : Program Op Resp (Except ε α × σ) :=
  match p.1 with
  | .ok a => .ret (.ok a, p.2)
  | .error e => (f e).start p.2

section Start
variable (s : σ)

@[simp] theorem start_bind (m : Effect ε Op Resp σ α) (f : α → Effect ε Op Resp σ β) :
    (m >>= f).start s = m.start s >>= resume f := by
  change Program.bind _ _ = Program.bind _ _
  congr 1
  funext p
  obtain ⟨a | a, s'⟩ := p <;> rfl

@[simp] theorem start_tryCatch (m : Effect ε Op Resp σ α) (f : ε → Effect ε Op Resp σ α) :
    (tryCatch m f).start s = m.start s >>= recover f := by
  change Program.bind _ _ = Program.bind _ _
  congr 1
  funext p
  obtain ⟨a | a, s'⟩ := p <;> rfl

end Start

/-- Answered as in `tr`, the block ends with `r` and leaves the state `s'`. -/
def Ends (m : Effect ε Op Resp σ α) (s : σ) (tr : List (Event Resp)) (r : Except ε α) (s' : σ) :
    Prop :=
  (m.start s).Runs tr (r, s')

section Ends
variable {s s' : σ} {tr : List (Event Resp)}

theorem ends_bind {m : Effect ε Op Resp σ α} {f : α → Effect ε Op Resp σ β} {r : Except ε β}
    (h : (m >>= f).Ends s tr r s') :
    (∃ tr₁ tr₂ a s₁, tr = tr₁ ++ tr₂ ∧ m.Ends s tr₁ (.ok a) s₁ ∧ (f a).Ends s₁ tr₂ r s') ∨
      ∃ e, r = .error e ∧ m.Ends s tr (.error e) s' := by
  unfold Ends at h
  rw [start_bind] at h
  obtain ⟨tr₁, tr₂, ⟨a, s₁⟩, rfl, h₁, h₂⟩ := Program.runs_bind.mp h
  cases a with
  | ok a => exact Or.inl ⟨tr₁, tr₂, a, s₁, rfl, h₁, h₂⟩
  | error e =>
    obtain ⟨rfl, hr⟩ := Program.runs_ret.mp h₂
    cases hr
    rw [List.append_nil]
    exact Or.inr ⟨e, rfl, h₁⟩

theorem ends_tryCatch {m : Effect ε Op Resp σ α} {f : ε → Effect ε Op Resp σ α} {r : Except ε α}
    (h : Effect.Ends (tryCatch m f) s tr r s') :
    (∃ a, r = .ok a ∧ m.Ends s tr (.ok a) s') ∨
      ∃ tr₁ tr₂ e s₁, tr = tr₁ ++ tr₂ ∧ m.Ends s tr₁ (.error e) s₁ ∧ (f e).Ends s₁ tr₂ r s' := by
  unfold Ends at h
  rw [start_tryCatch] at h
  obtain ⟨tr₁, tr₂, ⟨a, s₁⟩, rfl, h₁, h₂⟩ := Program.runs_bind.mp h
  cases a with
  | ok a =>
    obtain ⟨rfl, hr⟩ := Program.runs_ret.mp h₂
    cases hr
    rw [List.append_nil]
    exact Or.inl ⟨a, rfl, h₁⟩
  | error e => exact Or.inr ⟨tr₁, tr₂, e, s₁, rfl, h₁, h₂⟩

theorem ends_pure {a : α} {r : Except ε α}
    (h : (pure a : Effect ε Op Resp σ α).Ends s tr r s') : tr = [] ∧ r = .ok a ∧ s' = s := by
  obtain ⟨htr, hr⟩ := Program.runs_ret.mp h
  cases hr
  exact ⟨htr, rfl, rfl⟩

theorem ends_ofExcept {x r : Except ε α}
    (h : (ofExcept x : Effect ε Op Resp σ α).Ends s tr r s') : tr = [] ∧ r = x ∧ s' = s := by
  obtain ⟨htr, hr⟩ := Program.runs_ret.mp h
  cases hr
  exact ⟨htr, rfl, rfl⟩

theorem ends_attempt {o : Op} {h : Resp o → Except ε α} {r : Except ε α}
    (hend : (attempt o h : Effect ε Op Resp σ α).Ends s tr r s') :
    ∃ x, tr = [⟨o, x⟩] ∧ r = h x ∧ s' = s := by
  obtain ⟨x, tr', rfl, hr⟩ := Program.runs_call.mp hend
  obtain ⟨rfl, hr⟩ := Program.runs_ret.mp hr
  cases hr
  exact ⟨x, rfl, rfl, rfl⟩

theorem ends_get {r : Except ε σ} (h : (get : Effect ε Op Resp σ σ).Ends s tr r s') :
    tr = [] ∧ r = .ok s ∧ s' = s := by
  obtain ⟨htr, hr⟩ := Program.runs_ret.mp h
  cases hr
  exact ⟨htr, rfl, rfl⟩

theorem ends_modify {f : σ → σ} {r : Except ε Unit}
    (h : (modify f : Effect ε Op Resp σ Unit).Ends s tr r s') : tr = [] ∧ r = .ok () ∧ s' = f s := by
  obtain ⟨htr, hr⟩ := Program.runs_ret.mp h
  cases hr
  exact ⟨htr, rfl, rfl⟩

theorem ends_get_bind {f : σ → Effect ε Op Resp σ α} {r : Except ε α}
    (h : Ends (get >>= f) s tr r s') : (f s).Ends s tr r s' := by
  rcases ends_bind h with ⟨tr₁, tr₂, a, s₁, rfl, h₁, h₂⟩ | ⟨e, _, h₁⟩
  · obtain ⟨rfl, ha, rfl⟩ := ends_get h₁
    cases ha
    exact h₂
  · obtain ⟨_, he, _⟩ := ends_get h₁
    cases he

theorem ends_modify_bind {g : σ → σ} {f : Unit → Effect ε Op Resp σ α} {r : Except ε α}
    (h : Ends (modify g >>= f) s tr r s') : (f ()).Ends (g s) tr r s' := by
  rcases ends_bind h with ⟨tr₁, tr₂, a, s₁, rfl, h₁, h₂⟩ | ⟨e, _, h₁⟩
  · obtain ⟨rfl, _, rfl⟩ := ends_modify h₁
    exact h₂
  · obtain ⟨_, he, _⟩ := ends_modify h₁
    cases he

theorem ends_call_bind {o : Op} {f : Resp o → Effect ε Op Resp σ α} {r : Except ε α}
    (h : Ends (call o >>= f) s tr r s') :
    ∃ x tr', tr = ⟨o, x⟩ :: tr' ∧ (f x).Ends s tr' r s' := by
  rcases ends_bind h with ⟨tr₁, tr₂, a, s₁, rfl, h₁, h₂⟩ | ⟨e, _, h₁⟩
  · obtain ⟨x, rfl, ha, rfl⟩ := ends_attempt h₁
    cases ha
    exact ⟨a, tr₂, rfl, h₂⟩
  · obtain ⟨x, _, he, _⟩ := ends_attempt h₁
    cases he

end Ends

section Intro
variable {m : Effect ε Op Resp σ α} {f : α → Effect ε Op Resp σ β} {s s₁ s' : σ}
  {tr₁ tr₂ : List (Event Resp)}

theorem Ends.bind {a : α} {r : Except ε β} (hm : m.Ends s tr₁ (.ok a) s₁)
    (hf : (f a).Ends s₁ tr₂ r s') : (m >>= f).Ends s (tr₁ ++ tr₂) r s' := by
  unfold Ends
  rw [start_bind]
  exact Program.runs_bind.mpr ⟨tr₁, tr₂, _, rfl, hm, hf⟩

theorem Ends.raise {e : ε} (hm : m.Ends s tr₁ (.error e) s') : (m >>= f).Ends s tr₁ (.error e) s' := by
  unfold Ends
  rw [start_bind]
  exact Program.runs_bind.mpr ⟨tr₁, [], _, (List.append_nil _).symm, hm, .ret _⟩

theorem Ends.pure (a : α) (s : σ) : Ends (pure a : Effect ε Op Resp σ α) s [] (.ok a) s := .ret _

end Intro

/-- The block never raises. -/
def Returns (m : Effect ε Op Resp σ α) : Prop :=
  ∀ s tr r s', m.Ends s tr r s' → ∃ a, r = .ok a

theorem Returns.tryCatch {m : Effect ε Op Resp σ α} {f : ε → Effect ε Op Resp σ α}
    (hf : ∀ e, Returns (f e)) : Returns (tryCatch m f) := by
  intro s tr r s' h
  rcases ends_tryCatch h with ⟨a, rfl, _⟩ | ⟨tr₁, tr₂, e, s₁, rfl, _, h₂⟩
  · exact ⟨a, rfl⟩
  · exact hf e _ _ _ _ h₂

theorem Returns.pure (a : α) : Returns (pure a : Effect ε Op Resp σ α) := by
  intro s tr r s' h
  exact ⟨a, (ends_pure h).2.1⟩

theorem Returns.get : Returns (get : Effect ε Op Resp σ σ) := by
  intro s tr r s' h
  exact ⟨s, (ends_get h).2.1⟩

theorem Returns.modify (f : σ → σ) : Returns (modify f : Effect ε Op Resp σ Unit) := by
  intro s tr r s' h
  exact ⟨(), (ends_modify h).2.1⟩

theorem Returns.ite {c : Prop} [Decidable c] {m m' : Effect ε Op Resp σ α} (hm : Returns m)
    (hm' : Returns m') : Returns (if c then m else m') := by
  split
  · exact hm
  · exact hm'

/-- A block that never raises, and what follows it. -/
theorem Returns.ends_bind {m : Effect ε Op Resp σ α} (hm : Returns m)
    {f : α → Effect ε Op Resp σ β} {s s' : σ} {tr : List (Event Resp)} {r : Except ε β}
    (h : (m >>= f).Ends s tr r s') :
    ∃ tr₁ tr₂ a s₁, tr = tr₁ ++ tr₂ ∧ m.Ends s tr₁ (.ok a) s₁ ∧ (f a).Ends s₁ tr₂ r s' := by
  rcases Effect.ends_bind h with h | ⟨e, _, h⟩
  · exact h
  · obtain ⟨a, ha⟩ := hm _ _ _ _ h
    cases ha

theorem Returns.bind {m : Effect ε Op Resp σ α} {f : α → Effect ε Op Resp σ β} (hm : Returns m)
    (hf : ∀ a, Returns (f a)) : Returns (m >>= f) := by
  intro s tr r s' h
  obtain ⟨_, _, a, _, _, _, h⟩ := hm.ends_bind h
  exact hf a _ _ _ _ h

/-- Every value the block returns satisfies `ok`. -/
def Gives (ok : α → Prop) (m : Effect ε Op Resp σ α) : Prop :=
  ∀ s tr a s', m.Ends s tr (.ok a) s' → ok a

theorem Gives.bind {ok : β → Prop} {m : Effect ε Op Resp σ α} {f : α → Effect ε Op Resp σ β}
    (hf : ∀ a, Gives ok (f a)) : Gives ok (m >>= f) := by
  intro s tr b s' h
  rcases ends_bind h with ⟨_, _, a, _, _, _, h₂⟩ | ⟨e, he, _⟩
  · exact hf a _ _ _ _ h₂
  · cases he

theorem Gives.tryCatch {ok : α → Prop} {m : Effect ε Op Resp σ α} {f : ε → Effect ε Op Resp σ α}
    (hm : Gives ok m) (hf : ∀ e, Gives ok (f e)) : Gives ok (tryCatch m f) := by
  intro s tr a s' h
  rcases ends_tryCatch h with ⟨b, hb, h₁⟩ | ⟨_, _, e, _, _, _, h₂⟩
  · cases hb
    exact hm _ _ _ _ h₁
  · exact hf e _ _ _ _ h₂

theorem Gives.pure {ok : α → Prop} {a : α} (ha : ok a) :
    Gives ok (pure a : Effect ε Op Resp σ α) := by
  intro s tr b s' h
  cases (ends_pure h).2.1
  exact ha

theorem Gives.ite {ok : α → Prop} {c : Prop} [Decidable c] {m m' : Effect ε Op Resp σ α}
    (hm : Gives ok m) (hm' : Gives ok m') : Gives ok (if c then m else m') := by
  split
  · exact hm
  · exact hm'

/-- However it ends, the block moves the state and the trace as `R` allows. -/
def Moves (R : σ → List (Event Resp) → σ → Prop) (m : Effect ε Op Resp σ α) : Prop :=
  ∀ s tr r s', m.Ends s tr r s' → R s tr s'

/-- What is kept by doing nothing, and by one thing after another. -/
structure Composes (R : σ → List (Event Resp) → σ → Prop) : Prop where
  refl : ∀ s, R s [] s
  trans : ∀ {s₁ tr₁ s₂ tr₂ s₃}, R s₁ tr₁ s₂ → R s₂ tr₂ s₃ → R s₁ (tr₁ ++ tr₂) s₃

namespace Moves
variable {R : σ → List (Event Resp) → σ → Prop} (hR : Composes R)
include hR

theorem pure (a : α) : Moves R (pure a : Effect ε Op Resp σ α) := by
  intro s tr r s' h
  obtain ⟨rfl, rfl, rfl⟩ := ends_pure h
  exact hR.refl s'

theorem throw (e : ε) : Moves R (throw e : Effect ε Op Resp σ α) := by
  intro s tr r s' h
  obtain ⟨rfl, hr⟩ := Program.runs_ret.mp h
  cases hr
  exact hR.refl s

theorem bind {m : Effect ε Op Resp σ α} {f : α → Effect ε Op Resp σ β} (hm : Moves R m)
    (hf : ∀ a, Moves R (f a)) : Moves R (m >>= f) := by
  intro s tr r s' h
  rcases ends_bind h with ⟨tr₁, tr₂, a, s₁, rfl, h₁, h₂⟩ | ⟨e, rfl, h₁⟩
  · exact hR.trans (hm _ _ _ _ h₁) (hf a _ _ _ _ h₂)
  · exact hm _ _ _ _ h₁

theorem tryCatch {m : Effect ε Op Resp σ α} {f : ε → Effect ε Op Resp σ α} (hm : Moves R m)
    (hf : ∀ e, Moves R (f e)) : Moves R (tryCatch m f) := by
  intro s tr r s' h
  rcases ends_tryCatch h with ⟨a, rfl, h₁⟩ | ⟨tr₁, tr₂, e, s₁, rfl, h₁, h₂⟩
  · exact hm _ _ _ _ h₁
  · exact hR.trans (hm _ _ _ _ h₁) (hf e _ _ _ _ h₂)

omit hR in
theorem attempt {o : Op} (h : Resp o → Except ε α) (ho : ∀ s x, R s [⟨o, x⟩] s) :
    Moves R (attempt o h : Effect ε Op Resp σ α) := by
  intro s tr r s' hend
  obtain ⟨x, rfl, rfl, rfl⟩ := ends_attempt hend
  exact ho s' x

theorem get : Moves R (get : Effect ε Op Resp σ σ) := by
  intro s tr r s' h
  obtain ⟨rfl, _, rfl⟩ := ends_get h
  exact hR.refl s'

omit hR in
theorem modify {f : σ → σ} (hf : ∀ s, R s [] (f s)) :
    Moves R (modify f : Effect ε Op Resp σ Unit) := by
  intro s tr r s' h
  obtain ⟨rfl, _, rfl⟩ := ends_modify h
  exact hf s

omit hR in
theorem ite {c : Prop} [Decidable c] {m m' : Effect ε Op Resp σ α} (hm : c → Moves R m)
    (hm' : ¬ c → Moves R m') : Moves R (if c then m else m') := by
  split
  · exact hm ‹c›
  · exact hm' ‹¬ c›

end Moves

/-- The block moves as `R` allows if it raises, and as `E` says if it ends well. -/
def Closes (R E : σ → List (Event Resp) → σ → Prop) (m : Effect ε Op Resp σ α) : Prop :=
  ∀ s tr r s', m.Ends s tr r s' → (∀ a, r = .ok a → E s tr s') ∧ ∀ e, r = .error e → R s tr s'

namespace Closes
variable {R E : σ → List (Event Resp) → σ → Prop}

theorem bind {m : Effect ε Op Resp σ α} {f : α → Effect ε Op Resp σ β}
    (hR : Composes R) (hE : ∀ {s₁ tr₁ s₂ tr₂ s₃}, R s₁ tr₁ s₂ → E s₂ tr₂ s₃ → E s₁ (tr₁ ++ tr₂) s₃)
    (hm : Moves R m) (hf : ∀ a, Closes R E (f a)) : Closes R E (m >>= f) := by
  intro s tr r s' h
  rcases ends_bind h with ⟨tr₁, tr₂, a, s₁, rfl, h₁, h₂⟩ | ⟨e, rfl, h₁⟩
  · have hfirst := hm _ _ _ _ h₁
    obtain ⟨hok, herror⟩ := hf a _ _ _ _ h₂
    exact ⟨fun b hb => hE hfirst (hok b hb), fun e he => hR.trans hfirst (herror e he)⟩
  · refine ⟨fun a ha => ?_, fun _ _ => hm _ _ _ _ h₁⟩
    cases ha

theorem ite {c : Prop} [Decidable c] {m m' : Effect ε Op Resp σ α} (hm : Closes R E m)
    (hm' : Closes R E m') : Closes R E (if c then m else m') := by
  split
  · exact hm
  · exact hm'

theorem bind_pure {m : Effect ε Op Resp σ α} (f : α → β) (hm : Closes R E m) :
    Closes R E (m >>= fun a => pure (f a)) := by
  intro s tr r s' h
  rcases ends_bind h with ⟨tr₁, tr₂, a, s₁, rfl, h₁, h₂⟩ | ⟨e, rfl, h₁⟩
  · obtain ⟨rfl, rfl, rfl⟩ := ends_pure h₂
    rw [List.append_nil]
    refine ⟨fun _ _ => (hm _ _ _ _ h₁).1 a rfl, fun e he => ?_⟩
    cases he
  · refine ⟨fun a ha => ?_, fun _ _ => (hm _ _ _ _ h₁).2 e rfl⟩
    cases ha

end Closes

/-- However it ends, a run of the block satisfies `P`. -/
def Meets (P : σ → List (Event Resp) → Except ε α → σ → Prop) (m : Effect ε Op Resp σ α) : Prop :=
  ∀ s tr r s', m.Ends s tr r s' → P s tr r s'

namespace Meets
variable {P : σ → List (Event Resp) → Except ε β → σ → Prop} {R : σ → List (Event Resp) → σ → Prop}

/-- A first step that moves as `R` allows, where `P` holds of one that raises and can be
extended to the front by one that does not. -/
theorem bind {m : Effect ε Op Resp σ α} {f : α → Effect ε Op Resp σ β}
    (hraise : ∀ {s tr s' e}, R s tr s' → P s tr (.error e) s')
    (hfront : ∀ {s₁ tr₁ s₂ tr₂ r s₃}, R s₁ tr₁ s₂ → P s₂ tr₂ r s₃ → P s₁ (tr₁ ++ tr₂) r s₃)
    (hm : Moves R m) (hf : ∀ a, Meets P (f a)) : Meets P (m >>= f) := by
  intro s tr r s' h
  rcases ends_bind h with ⟨tr₁, tr₂, a, s₁, rfl, h₁, h₂⟩ | ⟨e, rfl, h₁⟩
  · exact hfront (hm _ _ _ _ h₁) (hf a _ _ _ _ h₂)
  · exact hraise (hm _ _ _ _ h₁)

theorem ite {c : Prop} [Decidable c] {m m' : Effect ε Op Resp σ β} (hm : Meets P m)
    (hm' : Meets P m') : Meets P (if c then m else m') := by
  split
  · exact hm
  · exact hm'

end Meets

end Effect

/-! ## Traces against a world -/

variable {W : Type}

/-- The answers of the trace take the world from `w` to `w'`. -/
inductive Threads (answer : W → (o : Op) → Resp o → W → Prop) : W → List (Event Resp) → W → Prop where
  | nil (w : W) : Threads answer w [] w
  | cons {w w₁ w₂ : W} {o : Op} {r : Resp o} {tr : List (Event Resp)} :
      answer w o r w₁ → Threads answer w₁ tr w₂ → Threads answer w (⟨o, r⟩ :: tr) w₂

namespace Threads
variable {answer : W → (o : Op) → Resp o → W → Prop} {w w' : W} {tr tr₁ tr₂ : List (Event Resp)}

theorem of_nil (h : Threads answer w [] w') : w' = w := by
  cases h
  rfl

theorem of_cons {o : Op} {r : Resp o} (h : Threads answer w (⟨o, r⟩ :: tr) w') :
    ∃ w₁, answer w o r w₁ ∧ Threads answer w₁ tr w' := by
  cases h with
  | cons ha h => exact ⟨_, ha, h⟩

theorem of_append (h : Threads answer w (tr₁ ++ tr₂) w') :
    ∃ w₁, Threads answer w tr₁ w₁ ∧ Threads answer w₁ tr₂ w' := by
  induction tr₁ generalizing w with
  | nil => exact ⟨w, .nil w, h⟩
  | cons e tr₁ ih =>
    obtain ⟨w₁, ha, h⟩ := of_cons h
    obtain ⟨w₂, h₁, h₂⟩ := ih h
    exact ⟨w₂, .cons ha h₁, h₂⟩

theorem append {w₁ : W} (h₁ : Threads answer w tr₁ w₁) (h₂ : Threads answer w₁ tr₂ w') :
    Threads answer w (tr₁ ++ tr₂) w' := by
  induction h₁ with
  | nil w => exact h₂
  | cons ha _ ih => exact .cons ha (ih h₂)

theorem mono {answer' : W → (o : Op) → Resp o → W → Prop} (h : Threads answer w tr w')
    (hanswer : ∀ {w o r w'}, answer w o r w' → answer' w o r w') : Threads answer' w tr w' := by
  induction h with
  | nil w => exact .nil w
  | cons ha _ ih => exact .cons (hanswer ha) ih

theorem unchanged (h : Threads answer w tr w')
    (hsame : ∀ e ∈ tr, ∀ w₁, answer w e.1 e.2 w₁ → w₁ = w) : w' = w := by
  induction h with
  | nil w => rfl
  | @cons w w₁ w₂ o r tr ha _ ih =>
    have hw := hsame ⟨o, r⟩ List.mem_cons_self w₁ ha
    subst hw
    exact ih fun e he => hsame e (List.mem_cons_of_mem _ he)

end Threads

section Play
variable (f : W → (o : Op) → Resp o × W)

theorem runs_play (p : Program Op Resp α) (w : W) :
    p.Runs (play f p w).1 (play f p w).2.1 := by
  induction p generalizing w with
  | ret a => exact .ret a
  | call o next ih => exact .call (f w o).1 (ih (f w o).1 (f w o).2)

theorem threads_play {answer : W → (o : Op) → Resp o → W → Prop}
    (hf : ∀ w o, answer w o (f w o).1 (f w o).2) (p : Program Op Resp α) (w : W) :
    Threads answer w (play f p w).1 (play f p w).2.2 := by
  induction p generalizing w with
  | ret a => exact .nil w
  | call o next ih => exact .cons (hf w o) (ih (f w o).1 (f w o).2)

theorem Threads.of_playsWithin {answer : W → (o : Op) → Resp o → W → Prop}
    {cond : W → (o : Op) → Resp o → W → Prop}
    (hf : ∀ w o, cond w o (f w o).1 (f w o).2 → answer w o (f w o).1 (f w o).2)
    {p : Program Op Resp α} {w : W} (hp : PlaysWithin cond f p w) :
    Threads answer w (play f p w).1 (play f p w).2.2 := by
  induction p generalizing w with
  | ret a => exact .nil w
  | call o next ih => exact .cons (hf w o hp.1) (ih (f w o).1 hp.2)

end Play

end Interaction
