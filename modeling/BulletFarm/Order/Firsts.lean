import Mathlib.Data.List.Basic
import Mathlib.Data.List.Induction
import Mathlib.Data.List.Nodup

/-!
# First occurrences

The elements of a list in the order in which they first occur, and what becomes of it under a
partial map.
-/

namespace BulletFarm.Firsts

set_option autoImplicit false

variable {α β : Type} [DecidableEq α]

theorem eraseDups_concat (xs : List α) (x : α) :
    (xs ++ [x]).eraseDups = if x ∈ xs then xs.eraseDups else xs.eraseDups ++ [x] := by
  rw [List.eraseDups_append, List.removeAll]
  split
  · next h => simp [h]
  · next h => simp [h, List.eraseDups_cons]

theorem pairwise_eraseDups (xs : List α) :
    xs.eraseDups.Pairwise fun a b => xs.idxOf a < xs.idxOf b := by
  induction xs using List.reverseRecOn with
  | nil => exact List.Pairwise.nil
  | append_singleton xs x ih =>
    have hbefore : ∀ a ∈ xs, (xs ++ [x]).idxOf a = xs.idxOf a :=
      fun a ha => List.idxOf_append_of_mem ha
    have hkept : xs.eraseDups.Pairwise fun a b => (xs ++ [x]).idxOf a < (xs ++ [x]).idxOf b := by
      refine ih.imp_of_mem ?_
      intro a b ha hb hab
      rwa [hbefore a (List.mem_eraseDups.mp ha), hbefore b (List.mem_eraseDups.mp hb)]
    rw [eraseDups_concat]
    split
    · exact hkept
    · next hx =>
      refine List.pairwise_append.mpr ⟨hkept, List.pairwise_singleton _ _, ?_⟩
      intro a ha b hb
      obtain rfl := List.mem_singleton.mp hb
      have ha := List.mem_eraseDups.mp ha
      rw [hbefore a ha, List.idxOf_append_of_notMem hx]
      have hlt := List.idxOf_lt_length_of_mem ha
      omega

theorem nodup_eraseDups (xs : List α) : xs.eraseDups.Nodup := by
  refine (pairwise_eraseDups xs).imp ?_
  rintro a _ h rfl
  exact absurd h (Nat.lt_irrefl _)

/-- No two elements of the list have a value in common. -/
def InjectiveOn (f : α → Option β) (xs : List α) : Prop :=
  ∀ x ∈ xs, ∀ y ∈ xs, ∀ b, f x = some b → f y = some b → x = y

omit [DecidableEq α] in
theorem InjectiveOn.mono {f : α → Option β} {xs ys : List α} (h : InjectiveOn f ys)
    (hsub : xs ⊆ ys) : InjectiveOn f xs := fun x hx y hy => h x (hsub hx) y (hsub hy)

omit [DecidableEq α] in
theorem nodup_filterMap_iff {f : α → Option β} {xs : List α} (hxs : xs.Nodup) :
    (xs.filterMap f).Nodup ↔ InjectiveOn f xs := by
  constructor
  · intro h
    induction xs with
    | nil =>
      intro x hx
      cases hx
    | cons a xs ih =>
      obtain ⟨ha, hxs⟩ := List.nodup_cons.mp hxs
      cases hfa : f a with
      | none =>
        rw [List.filterMap_cons_none hfa] at h
        intro x hx y hy b hfx hfy
        rcases List.mem_cons.mp hx with rfl | hx'
        · rw [hfa] at hfx
          cases hfx
        · rcases List.mem_cons.mp hy with rfl | hy'
          · rw [hfa] at hfy
            cases hfy
          · exact ih hxs h x hx' y hy' b hfx hfy
      | some c =>
        rw [List.filterMap_cons_some hfa] at h
        obtain ⟨hc, h⟩ := List.nodup_cons.mp h
        have hother : ∀ x ∈ xs, f x ≠ some c := fun x hx hfx => hc (List.mem_filterMap.mpr ⟨x, hx, hfx⟩)
        intro x hx y hy b hfx hfy
        rcases List.mem_cons.mp hx with rfl | hx'
        · rcases List.mem_cons.mp hy with rfl | hy'
          · rfl
          · rw [← hfx, hfa] at hfy
            exact absurd hfy (hother y hy')
        · rcases List.mem_cons.mp hy with rfl | hy'
          · rw [← hfy, hfa] at hfx
            exact absurd hfx (hother x hx')
          · exact ih hxs h x hx' y hy' b hfx hfy
  · intro h
    apply List.pairwise_filterMap.mpr
    refine hxs.imp_of_mem ?_
    rintro x y hx hy hne b hb _ hc rfl
    exact hne (h x hx y hy b hb hc)

/-- Duplicates may be dropped before the map or after it, if it keeps them apart. -/
theorem eraseDups_filterMap [DecidableEq β] {f : α → Option β} {xs : List α} (h : InjectiveOn f xs) :
    (xs.filterMap f).eraseDups = xs.eraseDups.filterMap f := by
  induction xs using List.reverseRecOn with
  | nil => rfl
  | append_singleton xs x ih =>
    have ih := ih (h.mono (List.subset_append_left _ _))
    rw [List.filterMap_append, eraseDups_concat]
    cases hfx : f x with
    | none =>
      have hnil : [x].filterMap f = [] := by simp [hfx]
      rw [hnil, List.append_nil, ih]
      split
      · rfl
      · rw [List.filterMap_append, hnil, List.append_nil]
    | some b =>
      have hone : [x].filterMap f = [b] := by simp [hfx]
      have hmem : b ∈ xs.filterMap f ↔ x ∈ xs := by
        rw [List.mem_filterMap]
        constructor
        · rintro ⟨y, hy, hfy⟩
          have hyx : y = x := h y (List.mem_append_left _ hy) x (by simp) b hfy hfx
          rwa [← hyx]
        · exact fun hx => ⟨x, hx, hfx⟩
      rw [hone, eraseDups_concat, ih]
      simp only [hmem]
      split
      · rfl
      · rw [List.filterMap_append, hone]

end BulletFarm.Firsts
