import BulletFarm.Text.Substitution

/-!
# Entries that begin with a line

The pattern of an entry is a line with its separator, and the mark that ends one begins
with a separator. A new text for every entry can then be found at the start of a line
exactly if an entry is, and what a second substitution does can be said entry by entry.
-/

namespace Text

set_option autoImplicit false

variable {α : Type}

/-! ## Counting occurrences -/

section Count
variable [DecidableEq α] {n : α} {p q t x y : List α}

def count (q : List α) : List α → Nat
  | [] => 0
  | a :: x => (if q <+: a :: x then 1 else 0) + count q x

theorem count_append (h : Clear q x y) : count q (x ++ y) = count q y := by
  induction x with
  | nil => rfl
  | cons a x ih =>
    rw [List.cons_append, count, if_neg h.1, ih h.2]
    omega

theorem count_eq_zero (h : Clear q x []) : count q x = 0 := by
  have hcount := count_append h
  rw [List.append_nil] at hcount
  exact hcount

theorem count_le (h : x <+: y) : count q x ≤ count q y := by
  induction x generalizing y with
  | nil => exact Nat.zero_le _
  | cons a x ih =>
    obtain ⟨z, rfl⟩ := h
    have hrest := ih (List.prefix_append x z)
    rw [List.cons_append, count, count]
    by_cases hq : q <+: a :: x
    · have hlong : q <+: a :: (x ++ z) := hq.trans (List.prefix_append _ _)
      rw [if_pos hq, if_pos hlong]
      omega
    · rw [if_neg hq]
      omega

/-- Lines with a separator on either side are counted apart on both sides of a separator,
but for one that begins there. -/
theorem count_boundary (hn : n ∉ t) (x y : List α) :
    count (n :: (t ++ [n])) (x ++ n :: y) = count (n :: (t ++ [n])) (x ++ [n]) +
      (if t ++ [n] <+: y then 1 else 0) + count (n :: (t ++ [n])) y := by
  induction x with
  | nil => simp [count]
  | cons a x ih =>
    have hsame : n :: (t ++ [n]) <+: a :: (x ++ n :: y) ↔ n :: (t ++ [n]) <+: a :: (x ++ [n]) := by
      simp only [List.cons_prefix_cons, line_prefix_iff hn]
    simp only [List.cons_append, count, ih, hsame]
    omega

end Count

/-! ## Clear texts -/

section Clear
variable {n a : α} {m m' p x y y' : List α}

theorem Clear.mono (h : Clear m x y) (hm : m <+: m') : Clear m' x y := by
  induction x with
  | nil => trivial
  | cons a x ih => exact ⟨fun hbegins => h.1 (hm.trans hbegins), ih h.2⟩

theorem Clear.left (h : Clear m x y') (hy : y <+: y') : Clear m x y := by
  induction x with
  | nil => trivial
  | cons a x ih =>
    refine ⟨fun hbegins => h.1 (hbegins.trans ?_), ih h.2⟩
    exact (List.prefix_append_right_inj (a :: x)).mpr hy

theorem not_clear (h : ¬ Clear m x y) : ∃ x₁ a x₂, x = x₁ ++ a :: x₂ ∧ m <+: a :: (x₂ ++ y) := by
  induction x with
  | nil => exact absurd trivial h
  | cons a x ih =>
    by_cases hbegins : m <+: a :: (x ++ y)
    · exact ⟨[], a, x, rfl, hbegins⟩
    · obtain ⟨x₁, b, x₂, rfl, hm⟩ := ih fun hx => h ⟨hbegins, hx⟩
      exact ⟨a :: x₁, b, x₂, rfl, hm⟩

theorem Clear.cons (h : Clear p x y) (hend : EndsIn n (a :: x) → ¬ p <+: y) :
    Clear (n :: p) (a :: x) y := by
  induction x generalizing a with
  | nil =>
    refine ⟨fun hbegins => ?_, trivial⟩
    obtain ⟨rfl, hp⟩ := List.cons_prefix_cons.mp hbegins
    exact hend (EndsIn.concat n []) hp
  | cons b x ih =>
    refine ⟨fun hbegins => ?_, ih h.2 fun hx => hend ?_⟩
    · exact h.1 (List.cons_prefix_cons.mp hbegins).2
    · rcases hx with hx | ⟨w, hw⟩
      · cases hx
      · exact Or.inr ⟨a :: w, congrArg (a :: ·) hw⟩

end Clear

/-! ## Entries at the start of a line -/

/-- Some entry begins a line. -/
def LineStart (n : α) : List α → List (List α × List α) → Prop
  | _, [] => False
  | u, (_, v) :: l => EndsIn n u ∨ LineStart n v l

section PutGet
variable [DecidableEq α] {n : α} {m t c u v x y e : List α} {l : List (List α × List α)}

theorem count_line (hn : n ∉ t) (x y : List α) : count (n :: (t ++ [n])) (x ++ n :: y) =
    count (n :: (t ++ [n])) (x ++ [n]) + count (n :: (t ++ [n])) (n :: y) := by
  have hboundary := count_boundary hn x y
  rw [hboundary, count]
  simp only [List.cons_prefix_cons, true_and]
  omega

omit [DecidableEq α] in
/-- No line that is a pattern begins before what does not end a line. -/
theorem clear_line {p : List α} (hu : Clear p u y) (hend : ¬ (EndsIn n u ∧ p <+: y)) :
    Clear (n :: p) (n :: u) y :=
  hu.cons fun hends hp => hend ⟨hends.tail, hp⟩

/-- A new text does not begin inside itself if too few lines follow it. -/
theorem clear_overlap (hn : n ∉ t) {rest : List α}
    (hrest : ∀ e x, e <+: rest → x <+: (t ++ [n]) ++ (c ++ [n]) → e.length ≤ x.length + 1 →
      count (n :: (t ++ [n])) (n :: e) ≤ count (n :: (t ++ [n])) x) :
    Clear (n :: ((t ++ [n]) ++ (c ++ [n]))) ((t ++ [n]) ++ (c ++ [n])) rest := by
  generalize hr : (t ++ [n]) ++ (c ++ [n]) = r at hrest
  by_contra hnot
  obtain ⟨x, a, y, hsplit, hbegins⟩ := not_clear hnot
  obtain ⟨rfl, hover⟩ := List.cons_prefix_cons.mp hbegins
  have hlength := congrArg List.length hsplit
  simp only [List.length_append, List.length_cons] at hlength
  obtain ⟨e, rfl⟩ : ∃ e, r = y ++ e := by
    obtain ⟨z, hz⟩ := List.prefix_of_prefix_length_le (List.prefix_append y rest) hover (by omega)
    exact ⟨z, hz.symm⟩
  have he : e <+: rest := (List.prefix_append_right_inj y).mp hover
  have hx : x <+: y ++ e := ⟨n :: y, hsplit.symm⟩
  have hlines := hrest e x he hx (by simp only [List.length_append] at hlength; omega)
  have hpattern : t ++ [n] <+: y ++ e := ⟨c ++ [n], hr⟩
  have hwhole : count (n :: (t ++ [n])) (n :: (y ++ e)) = 1 + count (n :: (t ++ [n])) (y ++ e) := by
    rw [count, if_pos (List.cons_prefix_cons.mpr ⟨rfl, hpattern⟩)]
  have hinside := count_line hn x y
  rw [← hsplit] at hinside
  have hmore : count (n :: (t ++ [n])) x ≤ count (n :: (t ++ [n])) (x ++ [n]) :=
    count_le (List.prefix_append x [n])
  rcases List.eq_nil_or_concat' y with rfl | ⟨z, b, rfl⟩
  · rw [List.nil_append] at hwhole hinside
    omega
  · -- `y` ends the new text, which ends with a separator
    obtain rfl : n = b := by
      have hends : (t ++ [n] ++ c) ++ [n] = (x ++ n :: z) ++ [b] := by
        rw [List.append_assoc (t ++ [n]), hr, hsplit]
        simp
      exact List.head_eq_of_cons_eq (List.append_inj' hends rfl).2
    have hover := count_line hn (n :: z) e
    simp only [List.cons_append, List.append_assoc, List.nil_append] at hover hwhole hinside
    omega

omit [DecidableEq α] in
theorem lineStart_infix (r : List α) (h : LineStart n u l) :
    n :: (r ++ [n]) <:+: n :: compose (fun _ => r ++ [n]) (u, l) := by
  induction l generalizing u with
  | nil => exact h.elim
  | cons q l ih =>
    obtain ⟨b, v⟩ := q
    rw [compose_cons]
    rcases h with hend | hlater
    · obtain ⟨w, hw⟩ : ∃ w, n :: u = w ++ [n] := by
        rcases hend with rfl | ⟨w, rfl⟩
        · exact ⟨[], rfl⟩
        · exact ⟨n :: w, rfl⟩
      have hstart : ∀ y, n :: (u ++ y) = w ++ (n :: y) := by
        intro y
        rw [← List.cons_append, hw, List.append_assoc]
        rfl
      rw [hstart]
      exact ⟨w, compose (fun _ => r ++ [n]) (v, l), by simp⟩
    · obtain ⟨x, y, hxy⟩ := ih hlater
      refine ⟨n :: (u ++ r) ++ x, y, ?_⟩
      have hrest : n :: (u ++ (r ++ [n] ++ compose (fun _ => r ++ [n]) (v, l))) =
          n :: (u ++ r) ++ (n :: compose (fun _ => r ++ [n]) (v, l)) := by simp
      rw [hrest, ← hxy]
      simp

theorem count_clear {p : List α} (hp : p ≠ []) (hu : Clear p u y) : count (n :: p) (n :: u) = 0 := by
  refine count_eq_zero (clear_line (hu.left List.nil_prefix) ?_)
  rintro ⟨_, hnil⟩
  exact hp (List.prefix_nil.mp hnil)

/-- As many lines that are patterns are found in what follows a new text as in a part of
the new text that is no shorter. -/
theorem count_following (hn : n ∉ t) (ht : t ≠ []) {r x : List α} (h : Parsed (t ++ [n]) (n :: m) v l)
    (hhalts : Halts (n :: m) (compose ((t ++ [n]) ++ ·) (v, l))) (hstart : ¬ LineStart n v l)
    (hr : t ++ [n] <+: r) (he : e <+: compose (fun _ => r) (v, l)) (hx : x <+: r)
    (hlength : e.length ≤ x.length + 1) :
    count (n :: (t ++ [n])) (n :: e) ≤ count (n :: (t ++ [n])) x := by
  have hp : t ++ [n] ≠ [] := by simp
  cases h with
  | last hv =>
    rw [compose_nil] at he
    obtain ⟨z, rfl⟩ := he
    rw [count_clear hp (clear_append.mp hv).1]
    exact Nat.zero_le _
  | @entry _ b v' l hv _ _ _ =>
    simp only [LineStart, not_or] at hstart
    rw [compose_cons] at he
    obtain ⟨z, rfl⟩ := hr
    rw [List.append_assoc] at he
    have hfollowing : ∀ y, Clear (t ++ [n]) v ((t ++ [n]) ++ y) :=
      fun y => (clear_append_right (Nat.le_refl _)).mpr hv
    rcases List.prefix_or_prefix_of_prefix he (List.prefix_append v _) with hinside | ⟨y, rfl⟩
    · obtain ⟨w, rfl⟩ := hinside
      rw [count_clear hp (clear_append.mp (hfollowing [])).1]
      exact Nat.zero_le _
    · -- the text between two entries is not empty
      have hne : v ≠ [] := by
        rintro rfl
        obtain ⟨a, t, rfl⟩ := List.exists_cons_of_ne_nil ht
        rcases hhalts with hnil | ⟨w, hw⟩
        · simp at hnil
        · simp only [compose_cons, List.nil_append, List.cons_append] at hw
          exact hn (List.head_eq_of_cons_eq hw ▸ List.mem_cons_self)
      have hy : y <+: (t ++ [n]) ++ (z ++ compose (fun _ => (t ++ [n]) ++ z) (v', l)) :=
        (List.prefix_append_right_inj v).mp he
      have hclear : Clear (n :: (t ++ [n])) (n :: v) y :=
        clear_line ((hfollowing _).left hy) fun h => hstart.1 h.1
      have hpos : 0 < v.length := List.length_pos_iff.mpr hne
      simp only [List.length_append] at hlength
      have hskip : count (n :: (t ++ [n])) (n :: (v ++ y)) = count (n :: (t ++ [n])) y :=
        count_append hclear
      rw [hskip]
      apply count_le
      refine List.prefix_of_prefix_length_le hy ?_ (by omega)
      rw [← List.append_assoc]
      exact hx.trans (List.prefix_append _ _)

/-- Where no entry begins a line, no new text begins at the start of a line. -/
theorem clear_compose (hn : n ∉ t) (ht : t ≠ []) (h : Parsed (t ++ [n]) (n :: m) u l)
    (hstart : ¬ LineStart n u l) : Clear (n :: ((t ++ [n]) ++ (c ++ [n])))
      (n :: compose (fun _ => (t ++ [n]) ++ (c ++ [n])) (u, l)) [] := by
  have hp : t ++ [n] ≠ [] := by simp
  have hline : n :: (t ++ [n]) <+: n :: ((t ++ [n]) ++ (c ++ [n])) := ⟨c ++ [n], rfl⟩
  induction h with
  | last hu =>
    rw [compose_nil]
    refine (clear_line hu ?_).mono hline
    rintro ⟨_, hnil⟩
    exact hp (List.prefix_nil.mp hnil)
  | @entry u b v l hu _ hhalts hv ih =>
    simp only [LineStart, not_or] at hstart
    generalize hr : (t ++ [n]) ++ (c ++ [n]) = r at *
    have hfirst : ∀ rest, Clear (t ++ [n]) u (r ++ rest) := by
      intro rest
      rw [← hr, List.append_assoc]
      exact (clear_append_right (Nat.le_refl _)).mpr hu
    rw [compose_cons, ← List.cons_append, clear_append, clear_append]
    refine ⟨(clear_line (by simpa using hfirst _) fun h => hstart.1 h.1).mono hline, ?_, (ih hstart.2).2⟩
    subst hr
    rw [List.append_nil]
    apply clear_overlap hn
    intro e x he hx hlength
    exact count_following hn ht hv hhalts hstart.2 ⟨c ++ [n], rfl⟩ he hx hlength

theorem put_get_iff (hn : n ∉ t) (ht : t ≠ []) (h : Parsed (t ++ [n]) (n :: m) u l) :
    n :: ((t ++ [n]) ++ (c ++ [n])) <:+:
      n :: compose (fun _ => (t ++ [n]) ++ (c ++ [n])) (u, l) ↔ LineStart n u l := by
  constructor
  · intro hinfix
    by_contra hstart
    exact (clear_iff (List.cons_ne_nil _ _)).mp (clear_compose hn ht h hstart) hinfix
  · intro hstart
    have hfound := lineStart_infix ((t ++ [n]) ++ c) hstart
    simpa using hfound

end PutGet

/-! ## Substitution once more -/

section Again
variable [DecidableEq α] {n : α} {m t u v x y g : List α} {f : List α → List α}
  {l : List (List α × List α)}

/-- A text that ends in a separator is substituted in apart from what follows. -/
theorem substitute_apart (hm : n ∉ m) (hn : n ∉ t) (hx : EndsIn n x)
    (hy : Halts (n :: m) y) : substitute (t ++ [n]) (n :: m) f (x ++ y) =
      substitute (t ++ [n]) (n :: m) f x ++ substitute (t ++ [n]) (n :: m) f y := by
  have hp : t ++ [n] ≠ [] := by simp
  induction hlength : x.length using Nat.strong_induction_on generalizing x with
  | _ k ih =>
    by_cases hrest : (breakOn (t ++ [n]) x).2 = []
    · have hclear : Clear (t ++ [n]) x [] := (clear_iff hp).mpr ((breakOn_eq_nil_iff hp).mp hrest)
      rw [substitute_append hp ((clear_last hn hx).mpr hclear), substitute_clear hclear]
    · obtain ⟨z, hz⟩ := (breakOn_halts (t ++ [n]) x).resolve_left hrest
      have hclear := breakOn_clear (t ++ [n]) x
      have hall := breakOn_append (t ++ [n]) x
      generalize (breakOn (t ++ [n]) x).1 = u at hclear hall
      rw [← hz] at hclear hall
      have hu := (clear_append_right (Nat.le_refl _)).mp hclear
      subst hall
      have hends : EndsIn n z := hx.suffix.suffix
      have hbody := congrArg List.length (breakOn_append (n :: m) z)
      have hrestEnds : EndsIn n (breakOn (n :: m) z).2 := by
        rw [← breakOn_append (n :: m) z] at hends
        exact hends.suffix
      simp only [List.length_append, List.length_cons] at hlength hbody
      rw [List.append_assoc, List.append_assoc, substitute_entry hp hu, substitute_entry hp hu,
        breakOn_apart hm hends hy, ih _ (by omega) hrestEnds rfl]
      simp

omit [DecidableEq α] in
theorem Halts.entries {p p' m : List α} (hlength : m.length ≤ p.length)
    (h : Halts m (compose (p ++ ·) (v, l))) : Halts m (compose (fun _ => p ++ p') (v, l)) := by
  cases l with
  | nil => simpa using h
  | cons q l =>
    obtain ⟨b, v'⟩ := q
    rw [compose_cons] at h ⊢
    rcases h with hnil | hbegins
    · have hp : p = [] := by
        simp only [List.append_eq_nil_iff] at hnil
        exact hnil.2.1.1
      subst hp
      have hm : m = [] := List.eq_nil_of_length_eq_zero (by simpa using hlength)
      exact Or.inr (hm ▸ List.nil_prefix)
    · right
      rw [List.append_assoc, ← List.append_assoc] at hbegins ⊢
      have hlong : m.length ≤ (v ++ p).length := by
        rw [List.length_append]
        omega
      exact (prefix_append_iff hlong).mpr ((prefix_append_iff hlong).mp hbegins)

/-- The second substitution puts after each new text what it makes of the rest that it
finds in the body of one. -/
theorem substitute_compose (hm : n ∉ m) (hn : n ∉ t) (hlength : m.length ≤ t.length)
    (hg : EndsIn n g) (r : List α) (h : Parsed (t ++ [n]) (n :: m) u l) :
    substitute (t ++ [n]) (n :: m) (fun _ => r) (compose (fun _ => (t ++ [n]) ++ g) (u, l)) =
      compose (fun _ => r ++ substitute (t ++ [n]) (n :: m) (fun _ => r) (breakOn (n :: m) g).2)
        (u, l) := by
  have hp : t ++ [n] ≠ [] := by simp
  induction h with
  | last hu => rw [compose_nil, compose_nil, substitute_clear hu]
  | @entry u b v l hu _ hhalts _ ih =>
    have hnext : Halts (n :: m) (compose (fun _ => (t ++ [n]) ++ g) (v, l)) :=
      Halts.entries (by simp; omega) hhalts
    have hends : EndsIn n (breakOn (n :: m) g).2 := by
      rw [← breakOn_append (n :: m) g] at hg
      exact hg.suffix
    rw [compose_cons, compose_cons, List.append_assoc, substitute_entry hp hu,
      breakOn_apart hm hg hnext, substitute_apart hm hn hends hnext, ih]
    simp

end Again

end Text
