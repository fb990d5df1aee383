import Mathlib.Data.List.Infix

/-!
# Searching a text

A text is a list. `breakOn` breaks it at the first occurrence of a pattern. Patterns
that have the separator of lines at one end only do not reach over the end of a line;
texts that end in a separator are therefore searched apart from what follows them.
-/

namespace Text

set_option autoImplicit false

variable {α : Type}

/-! ## Prefixes -/

section Prefixes
variable {n : α} {p t w x y z : List α}

theorem prefix_append_iff (h : p.length ≤ x.length) : p <+: x ++ y ↔ p <+: x := by
  constructor
  · exact fun hp => List.prefix_of_prefix_length_le hp (List.prefix_append x y) h
  · exact fun hp => hp.trans (List.prefix_append x y)

theorem word_prefix_iff (hn : n ∉ t) : t <+: w ++ n :: y ↔ t <+: w := by
  induction w generalizing t with
  | nil =>
    cases t with
    | nil => simp
    | cons a t =>
      simp only [List.mem_cons, not_or] at hn
      simp [Ne.symm hn.1]
  | cons b w ih =>
    cases t with
    | nil => simp
    | cons a t =>
      simp only [List.mem_cons, not_or] at hn
      simp only [List.cons_append, List.cons_prefix_cons, ih hn.2]

theorem line_prefix_iff (hn : n ∉ t) : t ++ [n] <+: w ++ n :: y ↔ t ++ [n] <+: w ++ [n] := by
  induction w generalizing t with
  | nil =>
    cases t with
    | nil => simp
    | cons a t =>
      simp only [List.mem_cons, not_or] at hn
      simp [Ne.symm hn.1]
  | cons b w ih =>
    cases t with
    | nil => simp
    | cons a t =>
      simp only [List.mem_cons, not_or] at hn
      simp only [List.cons_append, List.cons_prefix_cons, ih hn.2]

end Prefixes

/-! ## Ends of lines -/

/-- The text is empty or ends in the separator. -/
def EndsIn (n : α) (x : List α) : Prop := x = [] ∨ ∃ w, x = w ++ [n]

/-- Nothing follows, or something that begins with the pattern. -/
def Halts (m y : List α) : Prop := y = [] ∨ m <+: y

section EndsIn
variable {n a : α} {m t x y : List α}

theorem EndsIn.nil (n : α) : EndsIn n [] := Or.inl rfl

theorem EndsIn.concat (n : α) (x : List α) : EndsIn n (x ++ [n]) := Or.inr ⟨x, rfl⟩

theorem EndsIn.tail (h : EndsIn n (a :: x)) : EndsIn n x := by
  rcases h with h | ⟨w, hw⟩
  · cases h
  · cases w with
    | nil =>
      obtain ⟨_, rfl⟩ := List.cons.inj hw
      exact EndsIn.nil n
    | cons b w =>
      obtain ⟨_, rfl⟩ := List.cons.inj hw
      exact EndsIn.concat n w

theorem EndsIn.cons (h : EndsIn n x) (ha : x = [] → a = n) : EndsIn n (a :: x) := by
  rcases h with rfl | ⟨w, rfl⟩
  · rw [ha rfl]
    exact EndsIn.concat n []
  · exact EndsIn.concat n (a :: w)

theorem EndsIn.suffix (h : EndsIn n (x ++ y)) : EndsIn n y := by
  induction x with
  | nil => exact h
  | cons a x ih => exact ih h.tail

/-- A pattern that begins with the separator does not reach over an end of a line. -/
theorem head_prefix_iff (hn : n ∉ t) (hx : EndsIn n (a :: x)) (hy : Halts (n :: t) y) :
    n :: t <+: a :: (x ++ y) ↔ n :: t <+: a :: x := by
  simp only [List.cons_prefix_cons]
  apply and_congr_right
  rintro rfl
  rcases hx with hx | ⟨w, hw⟩
  · cases hx
  cases w with
  | nil =>
    obtain ⟨_, rfl⟩ := List.cons.inj hw
    rcases hy with rfl | hy
    · simp
    · obtain ⟨z, rfl⟩ := hy
      have hword := word_prefix_iff (w := []) (y := t ++ z) hn
      simpa using hword
  | cons b w =>
    obtain ⟨_, hx⟩ := List.cons.inj hw
    have htail : x = w ++ [n] := hx
    rw [htail, List.append_assoc, List.singleton_append, word_prefix_iff hn, word_prefix_iff hn]

/-- Nor does one that ends with it. -/
theorem last_prefix_iff (hn : n ∉ t) (hx : EndsIn n (a :: x)) :
    t ++ [n] <+: a :: (x ++ y) ↔ t ++ [n] <+: a :: x := by
  rcases hx with hx | ⟨w, hw⟩
  · cases hx
  · rw [← List.cons_append, hw, List.append_assoc, List.singleton_append]
    exact line_prefix_iff hn

end EndsIn

/-! ## Occurrences -/

/-- No occurrence of the pattern begins in `x` when `y` follows. -/
def Clear (m : List α) : List α → List α → Prop
  | [], _ => True
  | a :: x, y => ¬ m <+: a :: (x ++ y) ∧ Clear m x y

section Clear
variable {n a : α} {m p t u x y z : List α}

@[simp] theorem clear_nil : Clear m [] y := trivial

@[simp] theorem clear_cons : Clear m (a :: x) y ↔ ¬ m <+: a :: (x ++ y) ∧ Clear m x y := Iff.rfl

theorem clear_append : Clear m (x ++ y) z ↔ Clear m x (y ++ z) ∧ Clear m y z := by
  induction x with
  | nil => simp
  | cons a x ih => simp [ih, and_assoc]

theorem clear_iff (hm : m ≠ []) : Clear m x [] ↔ ¬ m <:+: x := by
  induction x with
  | nil => simp [hm]
  | cons a x ih => simp [ih, List.infix_cons_iff, not_or]

/-- Where none begins in the first part, every occurrence is one in the second. -/
theorem Clear.infix_append_iff (h : Clear m x y) : m <:+: x ++ y ↔ m <:+: y := by
  induction x with
  | nil => rfl
  | cons a x ih =>
    rw [List.cons_append, List.infix_cons_iff, ih h.2]
    exact or_iff_right h.1

/-- An occurrence that begins in `u` ends in `u ++ p` if it is no longer than `p`. -/
theorem clear_append_right (hm : m.length ≤ p.length) : Clear m u (p ++ y) ↔ Clear m u p := by
  induction u with
  | nil => simp
  | cons a u ih =>
    have hbegins : m <+: a :: (u ++ (p ++ y)) ↔ m <+: a :: (u ++ p) := by
      rw [← List.append_assoc, ← List.cons_append]
      apply prefix_append_iff
      simp only [List.length_cons, List.length_append]
      omega
    simp only [clear_cons, ih, hbegins]

theorem clear_last (hn : n ∉ t) (hx : EndsIn n x) :
    Clear (t ++ [n]) x y ↔ Clear (t ++ [n]) x [] := by
  induction x with
  | nil => simp
  | cons a x ih =>
    simp only [clear_cons, List.append_nil, ih hx.tail, last_prefix_iff hn hx]

end Clear

/-! ## The first occurrence -/

section BreakOn
variable [DecidableEq α] {n : α} {m t x y : List α}

/-- What stands before the first occurrence of `m`, and the text from there on; all of
the text and nothing if there is none. -/
def breakOn (m : List α) : List α → List α × List α
  | [] => ([], [])
  | a :: x => if m <+: a :: x then ([], a :: x) else (a :: (breakOn m x).1, (breakOn m x).2)

@[simp] theorem breakOn_append (m x : List α) : (breakOn m x).1 ++ (breakOn m x).2 = x := by
  induction x with
  | nil => rfl
  | cons a x ih =>
    unfold breakOn
    split
    · rfl
    · exact congrArg (a :: ·) ih

theorem breakOn_clear (m x : List α) : Clear m (breakOn m x).1 (breakOn m x).2 := by
  induction x with
  | nil => trivial
  | cons a x ih =>
    unfold breakOn
    split
    · trivial
    · next hm => exact ⟨by simpa using hm, ih⟩

theorem breakOn_halts (m x : List α) : Halts m (breakOn m x).2 := by
  induction x with
  | nil => exact Or.inl rfl
  | cons a x ih =>
    unfold breakOn
    split
    · next hm => exact Or.inr hm
    · exact ih

theorem breakOn_eq (hx : Clear m x y) (hy : Halts m y) : breakOn m (x ++ y) = (x, y) := by
  induction x with
  | nil =>
    cases y with
    | nil => rfl
    | cons a y =>
      have hm : m <+: a :: y := hy.resolve_left (List.cons_ne_nil _ _)
      simp [breakOn, hm]
  | cons a x ih => simp [breakOn, hx.1, ih hx.2]

theorem breakOn_eq_nil_iff (hm : m ≠ []) : (breakOn m x).2 = [] ↔ ¬ m <:+: x := by
  constructor
  · intro h
    have hclear := breakOn_clear m x
    have hall := breakOn_append m x
    rw [h] at hclear
    rw [h, List.append_nil] at hall
    rwa [hall, clear_iff hm] at hclear
  · intro h
    rcases breakOn_halts m x with hnil | hbegins
    · exact hnil
    · exact absurd (hbegins.isInfix.trans ⟨(breakOn m x).1, [], by simp⟩) h

/-- A text that ends in a separator is searched apart from what follows. -/
theorem breakOn_apart (hn : n ∉ t) (hx : EndsIn n x) (hy : Halts (n :: t) y) :
    breakOn (n :: t) (x ++ y) = ((breakOn (n :: t) x).1, (breakOn (n :: t) x).2 ++ y) := by
  induction x with
  | nil =>
    have hnone := breakOn_eq (x := []) trivial hy
    exact hnone
  | cons a x ih =>
    simp only [List.cons_append, breakOn, head_prefix_iff hn hx hy]
    split
    · rfl
    · rw [ih hx.tail]

end BreakOn

end Text
