import BulletFarm.Text.Search

/-!
# Substitution in a text

An entry is a pattern and the text after it up to a mark. `substitute` replaces every
entry of a text, from the left; what stands between the entries is kept.
-/

namespace Text

set_option autoImplicit false

variable {α : Type}

/-- A text taken apart: what stands before the first entry, and for each entry the text
after its pattern and what stands between it and the next one. -/
abbrev Parts (α : Type) : Type := List α × List (List α × List α)

/-- The parts put together, with the entries given by `f`. -/
def compose (f : List α → List α) (q : Parts α) : List α :=
  q.1 ++ q.2.flatMap fun s => f s.1 ++ s.2

section Compose
variable {f g : List α → List α} {p u v b : List α} {l : List (List α × List α)}

@[simp] theorem compose_nil : compose f (u, []) = u := by simp [compose]

@[simp] theorem compose_cons :
    compose f (u, (b, v) :: l) = u ++ (f b ++ compose f (v, l)) := by
  simp [compose]

theorem compose_length (r z u : List α) (l : List (List α × List α)) :
    (compose (fun _ => r ++ z) (u, l)).length =
      (compose (fun _ => r) (u, l)).length + l.length * z.length := by
  induction l generalizing u with
  | nil => simp
  | cons s l ih =>
    obtain ⟨b, v⟩ := s
    simp only [compose_cons, List.length_append, List.length_cons, ih, Nat.add_mul]
    omega

/-- What is put after every entry changes the text if there are entries. -/
theorem compose_append_eq_iff (r z u : List α) (l : List (List α × List α)) :
    compose (fun _ => r ++ z) (u, l) = compose (fun _ => r) (u, l) ↔ l = [] ∨ z = [] := by
  constructor
  · intro h
    have hlength := compose_length r z u l
    rw [h, Nat.left_eq_add, Nat.mul_eq_zero] at hlength
    simpa using hlength
  · rintro (rfl | rfl)
    · rw [compose_nil, compose_nil]
    · rw [List.append_nil]

end Compose

section Parts
variable [DecidableEq α] {p m : List α}

/-- The text of the first entry, and what follows it. -/
def entry (p m x : List α) : List α × List α := breakOn m ((breakOn p x).2.drop p.length)

def partsFrom (p m : List α) : Nat → List α → Parts α
  | 0, x => (x, [])
  | fuel + 1, x =>
    if (breakOn p x).2 = [] then (x, [])
    else ((breakOn p x).1, ((entry p m x).1, (partsFrom p m fuel (entry p m x).2).1) ::
      (partsFrom p m fuel (entry p m x).2).2)

/-- The entries of a text. -/
def parts (p m x : List α) : Parts α := partsFrom p m x.length x

/-- Every entry is replaced by what `f` makes of its text. -/
def substitute (p m : List α) (f : List α → List α) (x : List α) : List α := compose f (parts p m x)

theorem entry_length (hp : p ≠ []) {x : List α} (h : (breakOn p x).2 ≠ []) :
    (entry p m x).2.length < x.length := by
  have hx := congrArg List.length (breakOn_append p x)
  have hentry := congrArg List.length (breakOn_append m ((breakOn p x).2.drop p.length))
  have hpos : 0 < p.length := List.length_pos_iff.mpr hp
  have hrest : 0 < (breakOn p x).2.length := List.length_pos_iff.mpr h
  simp only [List.length_append, List.length_drop] at hx hentry
  unfold entry
  omega

theorem partsFrom_fuel (hp : p ≠ []) {fuel fuel' : Nat} {x : List α} (h : x.length ≤ fuel)
    (h' : x.length ≤ fuel') : partsFrom p m fuel x = partsFrom p m fuel' x := by
  induction fuel generalizing fuel' x with
  | zero =>
    have hx : x = [] := List.eq_nil_of_length_eq_zero (by omega)
    subst hx
    cases fuel' with
    | zero => rfl
    | succ fuel' => simp [partsFrom, breakOn]
  | succ fuel ih =>
    cases fuel' with
    | zero =>
      have hx : x = [] := List.eq_nil_of_length_eq_zero (by omega)
      subst hx
      simp [partsFrom, breakOn]
    | succ fuel' =>
      unfold partsFrom
      split
      · rfl
      · next hrest =>
        have hless := entry_length (m := m) hp hrest
        have hnext : partsFrom p m fuel (entry p m x).2 = partsFrom p m fuel' (entry p m x).2 :=
          ih (by omega) (by omega)
        rw [hnext]

theorem parts_none {x : List α} (h : (breakOn p x).2 = []) : parts p m x = (x, []) := by
  unfold parts
  cases x with
  | nil => rfl
  | cons a x => simp [partsFrom, h]

theorem parts_some (hp : p ≠ []) {x : List α} (h : (breakOn p x).2 ≠ []) :
    parts p m x = ((breakOn p x).1, ((entry p m x).1, (parts p m (entry p m x).2).1) ::
      (parts p m (entry p m x).2).2) := by
  have hless := entry_length (m := m) hp h
  cases x with
  | nil => exact absurd rfl h
  | cons a x =>
    have hnext : partsFrom p m x.length (entry p m (a :: x)).2 = parts p m (entry p m (a :: x)).2 :=
      partsFrom_fuel hp (by simp only [List.length_cons] at hless; omega) (Nat.le_refl _)
    rw [← hnext]
    unfold parts
    rw [List.length_cons, partsFrom, if_neg h]

theorem parts_clear {u : List α} (hu : Clear p u []) : parts p m u = (u, []) := by
  apply parts_none
  have hbreak := breakOn_eq hu (Or.inl rfl)
  rw [List.append_nil] at hbreak
  rw [hbreak]

theorem parts_entry (hp : p ≠ []) {u x : List α} (hu : Clear p u p) :
    parts p m (u ++ (p ++ x)) = (u, ((breakOn m x).1, (parts p m (breakOn m x).2).1) ::
      (parts p m (breakOn m x).2).2) := by
  have hclear : Clear p u (p ++ x) := (clear_append_right (Nat.le_refl _)).mpr hu
  have hbreak : breakOn p (u ++ (p ++ x)) = (u, p ++ x) :=
    breakOn_eq hclear (Or.inr (List.prefix_append p x))
  have hrest : (breakOn p (u ++ (p ++ x))).2 ≠ [] := by
    rw [hbreak]
    exact List.append_ne_nil_of_left_ne_nil hp x
  rw [parts_some hp hrest, entry, hbreak, List.drop_left]

/-! ## Texts and their parts -/

/-- What the parts of a text are like. -/
inductive Parsed (p m : List α) : List α → List (List α × List α) → Prop where
  | last {u : List α} : Clear p u [] → Parsed p m u []
  | entry {u b v : List α} {l : List (List α × List α)} : Clear p u p →
      Clear m b (compose (p ++ ·) (v, l)) → Halts m (compose (p ++ ·) (v, l)) → Parsed p m v l →
      Parsed p m u ((b, v) :: l)

theorem parts_parsed (hp : p ≠ []) (x : List α) :
    compose (p ++ ·) (parts p m x) = x ∧ Parsed p m (parts p m x).1 (parts p m x).2 := by
  induction hlength : x.length using Nat.strong_induction_on generalizing x with
  | _ k ih =>
    by_cases hrest : (breakOn p x).2 = []
    · rw [parts_none hrest]
      refine ⟨compose_nil, .last ?_⟩
      have hclear := breakOn_clear p x
      have hall := breakOn_append p x
      rw [hrest, List.append_nil] at hall
      rwa [hall, hrest] at hclear
    · have hless := entry_length (m := m) hp hrest
      obtain ⟨htext, hparsed⟩ := ih _ (hlength ▸ hless) _ rfl
      obtain ⟨y, hy⟩ := (breakOn_halts p x).resolve_left hrest
      have hclear := breakOn_clear p x
      have hentry : entry p m x = breakOn m y := by
        unfold entry
        rw [← hy, List.drop_left]
      rw [parts_some hp hrest]
      rw [hentry] at htext hparsed ⊢
      rw [← hy] at hclear
      constructor
      · rw [compose_cons, htext, List.append_assoc, breakOn_append, hy, breakOn_append]
      · refine .entry ((clear_append_right (Nat.le_refl _)).mp hclear) ?_ ?_ hparsed
        · rw [htext]
          exact breakOn_clear m y
        · rw [htext]
          exact breakOn_halts m y

/-! ## Substitution -/

section Substitute
variable {f : List α → List α} {n : α} {t u x y : List α}

theorem substitute_clear (hu : Clear p u []) : substitute p m f u = u := by
  unfold substitute
  rw [parts_clear hu, compose_nil]

theorem substitute_entry (hp : p ≠ []) (hu : Clear p u p) : substitute p m f (u ++ (p ++ x)) =
    u ++ (f (breakOn m x).1 ++ substitute p m f (breakOn m x).2) := by
  unfold substitute
  rw [parts_entry hp hu, compose_cons]

/-- Nothing is left only of nothing. -/
theorem substitute_eq_nil_iff (hp : p ≠ []) (hf : ∀ b, f b ≠ []) :
    substitute p m f x = [] ↔ x = [] := by
  have htext := (parts_parsed (m := m) hp x).1
  unfold substitute
  generalize Text.parts p m x = q at htext ⊢
  obtain ⟨u, l⟩ := q
  subst htext
  cases l with
  | nil => rw [compose_nil, compose_nil]
  | cons s l =>
    obtain ⟨b, v⟩ := s
    simp [hf, hp]

theorem substitute_append (hp : p ≠ []) (hx : Clear p x y) :
    substitute p m f (x ++ y) = x ++ substitute p m f y := by
  obtain ⟨u, hu⟩ : ∃ u, u = (breakOn p y).1 := ⟨_, rfl⟩
  have hclear := breakOn_clear p y
  have hall := breakOn_append p y
  rw [← hu] at hclear hall
  rcases breakOn_halts p y with hnil | ⟨z, hz⟩
  · rw [hnil, List.append_nil] at hall
    rw [hnil, hall] at hclear
    rw [substitute_clear hclear, substitute_clear (clear_append.mpr ⟨by simpa using hx, hclear⟩)]
  · rw [← hz] at hclear hall
    rw [← hall] at hx ⊢
    have hwhole : Clear p (x ++ u) (p ++ z) := clear_append.mpr ⟨hx, hclear⟩
    rw [← List.append_assoc, substitute_entry hp ((clear_append_right (Nat.le_refl _)).mp hwhole),
      substitute_entry hp ((clear_append_right (Nat.le_refl _)).mp hclear), List.append_assoc]

end Substitute

end Parts

end Text
