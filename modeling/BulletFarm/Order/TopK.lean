import Mathlib.Data.List.Sort

/-!
# The first elements of a sort

A stable sort by a total preorder, as an insertion of one element after the other. Two
sorted lists are sorted together by merging them, and of a merge the first `k` elements
depend on the first `k` of each list only.
-/

namespace BulletFarm.Order

open List

set_option autoImplicit false

variable {α : Type} {le : α → α → Bool} {a : α} {xs ys : List α}

/-! ## Truncation -/

theorem take_merge (le : α → α → Bool) (xs ys : List α) {k i j : Nat} (hi : k ≤ i) (hj : k ≤ j) :
    (merge (xs.take i) (ys.take j) le).take k = (merge xs ys le).take k := by
  induction k generalizing xs ys i j with
  | zero => simp
  | succ k ih =>
    obtain ⟨i, rfl⟩ : ∃ i', i = i' + 1 := ⟨i - 1, by omega⟩
    obtain ⟨j, rfl⟩ : ∃ j', j = j' + 1 := ⟨j - 1, by omega⟩
    cases xs with
    | nil => simp [List.take_take, Nat.min_eq_left hj]
    | cons x xs =>
      cases ys with
      | nil => simp [List.take_take, Nat.min_eq_left (Nat.le_of_succ_le_succ hi)]
      | cons y ys =>
        simp only [take_succ_cons, cons_merge_cons]
        split
        · have hrest := ih xs (y :: ys) (Nat.le_of_succ_le_succ hi) (Nat.le_of_succ_le hj)
          rw [take_succ_cons] at hrest
          rw [take_succ_cons, take_succ_cons, hrest]
        · have hrest := ih (x :: xs) ys (Nat.le_of_succ_le hi) (Nat.le_of_succ_le_succ hj)
          rw [take_succ_cons] at hrest
          rw [take_succ_cons, take_succ_cons, hrest]

/-! ## The sort -/

section Preorder

variable (trans : ∀ a b c, le a b → le b c → le a c) (total : ∀ a b, le a b || le b a)
include trans total

/-- The sort puts an element before those that are not below it. -/
theorem mergeSort_cons_eq_orderedInsert (a : α) (xs : List α) :
    (a :: xs).mergeSort le = (xs.mergeSort le).orderedInsert (fun x y => le x y) a := by
  obtain ⟨before, after, hsorted, hrest, hbefore⟩ := mergeSort_cons trans total a xs
  have hpairs := pairwise_mergeSort trans total (a :: xs)
  rw [hsorted, pairwise_append, pairwise_cons] at hpairs
  rw [hsorted, hrest]
  clear hsorted hrest
  induction before with
  | nil =>
    cases after with
    | nil => rfl
    | cons b after =>
      rw [nil_append, nil_append]
      exact (orderedInsert_cons_of_le (fun x y => le x y) _ (hpairs.2.1.1 b mem_cons_self)).symm
  | cons b before ih =>
    have hb : ¬ le a b := by simpa using hbefore b mem_cons_self
    rw [cons_append, cons_append, orderedInsert_of_not_le (fun x y => le x y) _ hb]
    congr 1
    apply ih
    · exact fun c hc => hbefore c (mem_cons_of_mem _ hc)
    · exact ⟨hpairs.1.tail, hpairs.2.1, fun c hc d hd => hpairs.2.2 c (mem_cons_of_mem _ hc) d hd⟩

omit total in
/-- What is below everything on the left goes first of what it is tied with. -/
theorem orderedInsert_merge (hleft : ∀ b ∈ xs, le a b) :
    (merge xs ys le).orderedInsert (fun x y => le x y) a = merge (a :: xs) ys le := by
  induction ys with
  | nil =>
    rw [merge_right, merge_right]
    cases xs with
    | nil => rfl
    | cons x xs => exact orderedInsert_cons_of_le (fun x y => le x y) _ (hleft x mem_cons_self)
  | cons y ys ih =>
    rw [cons_merge_cons]
    split
    · rename_i hle
      cases xs with
      | nil =>
        rw [nil_merge]
        exact orderedInsert_cons_of_le (fun x y => le x y) _ hle
      | cons x xs =>
        rw [cons_merge_cons]
        split
        · exact orderedInsert_cons_of_le (fun x y => le x y) _ (hleft x mem_cons_self)
        · exact orderedInsert_cons_of_le (fun x y => le x y) _ hle
    · rename_i hle
      rw [← ih]
      cases xs with
      | nil =>
        rw [nil_merge, nil_merge]
        exact orderedInsert_of_not_le (fun x y => le x y) _ hle
      | cons x xs =>
        rw [cons_merge_cons, if_neg fun hxy => hle (trans a x y (hleft x mem_cons_self) hxy)]
        exact orderedInsert_of_not_le (fun x y => le x y) _ hle

theorem mergeSort_append (hxs : xs.Pairwise fun x y => le x y) (hys : ys.Pairwise fun x y => le x y) :
    (xs ++ ys).mergeSort le = merge xs ys le := by
  induction xs with
  | nil =>
    rw [nil_append, nil_merge]
    exact mergeSort_of_pairwise hys
  | cons x xs ih =>
    rw [pairwise_cons] at hxs
    rw [cons_append, mergeSort_cons_eq_orderedInsert trans total, ih hxs.2,
      orderedInsert_merge trans hxs.1]

/-- To sort two sorted lists together, the first `k` elements of each are enough for the
first `k` elements. -/
theorem take_mergeSort_append (hxs : xs.Pairwise fun x y => le x y)
    (hys : ys.Pairwise fun x y => le x y) (k : Nat) :
    ((xs.take k ++ ys.take k).mergeSort le).take k = ((xs ++ ys).mergeSort le).take k := by
  rw [mergeSort_append trans total (hxs.sublist (take_sublist k xs)) (hys.sublist (take_sublist k ys)),
    mergeSort_append trans total hxs hys, take_merge le xs ys (Nat.le_refl k) (Nat.le_refl k)]

theorem filter_mergeSort {p : α → Bool} (htied : ∀ a b, p a → p b → le a b) :
    (xs.mergeSort le).filter p = xs.filter p := by
  have hpairs : (xs.filter p).Pairwise fun x y => le x y := by
    rw [pairwise_filter]
    exact pairwise_of_forall fun x y hx hy => htied x y hx hy
  have hsub : xs.filter p <+ (xs.mergeSort le).filter p := by
    have hsorted := sublist_mergeSort trans total hpairs filter_sublist
    simpa using hsorted.filter p
  have hlength := ((mergeSort_perm xs le).filter p).length_eq
  exact (hsub.eq_of_length hlength.symm).symm

omit trans total in
theorem le_of_take_drop (hsorted : xs.Pairwise fun x y => le x y) {k : Nat} {b : α}
    (ha : a ∈ xs.take k) (hb : b ∈ xs.drop k) : le a b := by
  rw [← take_append_drop k xs, pairwise_append] at hsorted
  exact hsorted.2.2 a ha b hb

end Preorder

end BulletFarm.Order
