import BulletFarm.Text.Substitution
import Mathlib.Data.List.DropRight

/-!
# The outline of a text

A text is a list of lines; a line that begins with a mark is the heading of a section that
goes on to the next one. An entry that begins a line with a heading and ends before the
next heading is the body of one section: replacing it leaves the others as they are.
-/

namespace Text

set_option autoImplicit false

variable {α : Type}

/-! ## Sections -/

abbrev Section (α : Type) : Type := List α × List (List α)

section Outline
variable [DecidableEq α] {n : α} {h t u v b x y : List α} {xs ys : List (List α)}

/-- The lines before the first heading, and the sections. -/
def outline (h : List α) : List (List α) → List (List α) × List (Section α)
  | [] => ([], [])
  | line :: rest =>
    if h <+: line then ([], (line, (outline h rest).1) :: (outline h rest).2)
    else (line :: (outline h rest).1, (outline h rest).2)

/-- What follows with a heading of its own adds its sections. -/
theorem outline_append (hy : (outline h ys).1 = []) :
    outline h (xs ++ ys) = ((outline h xs).1, (outline h xs).2 ++ (outline h ys).2) := by
  induction xs with
  | nil =>
    rw [List.nil_append]
    exact Prod.ext hy rfl
  | cons line xs ih =>
    rw [List.cons_append, outline, outline, ih]
    split <;> rfl

theorem outline_plain (hx : ∀ line ∈ xs, ¬ h <+: line) : outline h xs = (xs, []) := by
  induction xs with
  | nil => rfl
  | cons line xs ih =>
    rw [outline, if_neg (hx line List.mem_cons_self), ih fun l hl => hx l (List.mem_cons_of_mem _ hl)]

theorem outline_heading (ht : h <+: t) :
    outline h (t :: xs) = ([], (t, (outline h xs).1) :: (outline h xs).2) := by
  rw [outline, if_pos ht]

/-- Without the blank lines at the end. -/
def trim (xs : List (List α)) : List (List α) := xs.rdropWhile fun line => decide (line = [])

/-- A section, but for its body if its heading is `t`. -/
def mask (t : List α) (s : Section α) : Section α := (s.1, if s.1 = t then [] else trim s.2)

/-- The lines before the first section are the same, and the sections are still there in the
same order, but for blank lines at their ends and the bodies of those with heading `t`. -/
structure Framed (n : α) (h t x y : List α) : Prop where
  preamble : trim (outline h (x.splitOn n)).1 = trim (outline h (y.splitOn n)).1
  sections : ((outline h (x.splitOn n)).2.map (mask t)).Sublist
    ((outline h (y.splitOn n)).2.map (mask t))

/-- Framed, with the blank lines before the first section in their places. -/
structure Embeds (n : α) (h t x y : List α) : Prop where
  preamble : (outline h (x.splitOn n)).1 = (outline h (y.splitOn n)).1
  sections : ((outline h (x.splitOn n)).2.map (mask t)).Sublist
    ((outline h (y.splitOn n)).2.map (mask t))

theorem Embeds.refl (n : α) (h t x : List α) : Embeds n h t x x := ⟨rfl, List.Sublist.refl _⟩

theorem Embeds.framed (hxy : Embeds n h t x y) : Framed n h t x y :=
  ⟨congrArg trim hxy.preamble, hxy.sections⟩

/-! ## Lines -/

/-- Whole lines stand before what follows them. -/
theorem EndsIn.lines (hu : EndsIn n u) : ∃ us, ∀ x, (u ++ x).splitOn n = us ++ x.splitOn n := by
  rcases hu with rfl | ⟨w, rfl⟩
  · exact ⟨[], fun _ => rfl⟩
  · refine ⟨w.splitOn n, fun x => ?_⟩
    rw [List.append_assoc]
    exact List.splitOn_append_cons_self w x

theorem lines_heading (hn : n ∉ t) : (t ++ n :: x).splitOn n = t :: x.splitOn n :=
  List.splitOn_append_cons_self_of_not_mem hn x

theorem preamble_nil (hn : n ∉ h) (hx : h <+: x) : (outline h (x.splitOn n)).1 = [] := by
  by_cases hmem : n ∈ x
  · obtain ⟨w, y, rfl, hw⟩ := List.eq_append_cons_of_mem hmem
    rw [lines_heading hw, outline_heading ((word_prefix_iff hn).mp hx)]
  · rw [List.splitOn_eq_singleton hmem, outline_heading hx]

theorem lines_plain (hb : ¬ h <+: b) (hclear : Clear (n :: h) b y) :
    ∀ line ∈ b.splitOn n, ¬ h <+: line := by
  induction hlength : b.length using Nat.strong_induction_on generalizing b with
  | _ k ih =>
    by_cases hmem : n ∈ b
    · obtain ⟨w, z, rfl, hw⟩ := List.eq_append_cons_of_mem hmem
      rw [clear_append, clear_cons] at hclear
      have hz : ¬ h <+: z := fun hz =>
        hclear.2.1 (List.cons_prefix_cons.mpr ⟨rfl, hz.trans (List.prefix_append z y)⟩)
      have hless : z.length < k := by
        rw [← hlength, List.length_append, List.length_cons]
        omega
      rw [lines_heading hw]
      intro line hline
      rcases List.mem_cons.mp hline with rfl | hline
      · exact fun hbegins => hb (hbegins.trans (List.prefix_append _ _))
      · exact ih _ hless hz hclear.2.2 rfl line hline
    · rw [List.splitOn_eq_singleton hmem]
      simpa using hb

theorem outline_blank (hne : h ≠ []) (xs : List (List α)) :
    outline h ([] :: xs) = ([] :: (outline h xs).1, (outline h xs).2) := by
  rw [outline, if_neg]
  exact fun hnil => hne (List.prefix_nil.mp hnil)

end Outline

/-! ## Sections with new bodies -/

/-- Every entry begins a line and does not begin with a heading. -/
def Proper (n : α) (h : List α) : List α → List (List α × List α) → Prop
  | _, [] => True
  | u, (b, v) :: l => EndsIn n u ∧ ¬ h <+: b ∧ Proper n h v l

section Bodies
variable [DecidableEq α] {n : α} {h t u v b x y : List α} {l : List (List α × List α)}
  {f : List α → List α}

/-- One section with a new body, the same text before it and sections that are kept after it. -/
theorem Embeds.body (hxy : Embeds n h t x y) (hn : n ∉ t) (hh : n ∉ h) (ht : h <+: t)
    (hu : EndsIn n u) (hb : ¬ h <+: b) (hclear : Clear (n :: h) b (n :: x)) (hx : h <+: x) (c : List α) :
    Embeds n h t (u ++ (t ++ n :: (b ++ n :: x))) (u ++ (t ++ n :: (c ++ n :: y))) := by
  obtain ⟨us, hus⟩ := hu.lines
  have hxnil := preamble_nil hh hx
  have hynil := hxy.preamble.symm.trans hxnil
  have hbody : ∀ c z : List α, (outline h (z.splitOn n)).1 = [] →
      outline h ((u ++ (t ++ n :: (c ++ n :: z))).splitOn n) =
        ((outline h us).1, (outline h us).2 ++ (t, (outline h (c.splitOn n)).1) ::
          ((outline h (c.splitOn n)).2 ++ (outline h (z.splitOn n)).2)) := by
    intro c z hz
    rw [hus, lines_heading hn, List.splitOn_append_cons_self, outline_append, outline_heading ht,
      outline_append hz]
    rw [outline_heading ht]
  have hnone := outline_plain (lines_plain hb hclear)
  constructor
  · rw [hbody b x hxnil, hbody c y hynil]
  · rw [hbody b x hxnil, hbody c y hynil, hnone, List.nil_append]
    simp only [List.map_append, List.map_cons, mask, if_pos]
    refine (List.Sublist.refl _).append (List.Sublist.cons_cons _ ?_)
    exact hxy.sections.trans (List.sublist_append_right _ _)

theorem Embeds.last (hn : n ∉ t) (ht : h <+: t) (hu : EndsIn n u) (hb : ¬ h <+: b)
    (hclear : Clear (n :: h) b []) (c : List α) :
    Embeds n h t (u ++ (t ++ n :: b)) (u ++ (t ++ n :: c)) := by
  obtain ⟨us, hus⟩ := hu.lines
  have hbody : ∀ c : List α, outline h ((u ++ (t ++ n :: c)).splitOn n) =
      ((outline h us).1, (outline h us).2 ++ (t, (outline h (c.splitOn n)).1) ::
        (outline h (c.splitOn n)).2) := by
    intro c
    rw [hus, lines_heading hn, outline_append, outline_heading ht]
    rw [outline_heading ht]
  have hnone := outline_plain (lines_plain hb hclear)
  constructor
  · rw [hbody b, hbody c]
  · rw [hbody b, hbody c, hnone]
    simp only [List.map_append, List.map_cons, mask, if_pos]
    exact (List.Sublist.refl _).append (List.Sublist.cons_cons _ (List.nil_sublist _))

theorem Embeds.added (hh : n ∉ h) (hy : h <+: y) : Embeds n h t x (x ++ n :: y) := by
  have houtline : outline h ((x ++ n :: y).splitOn n) =
      ((outline h (x.splitOn n)).1, (outline h (x.splitOn n)).2 ++ (outline h (y.splitOn n)).2) := by
    rw [List.splitOn_append_cons_self, outline_append (preamble_nil hh hy)]
  constructor
  · rw [houtline]
  · rw [houtline, List.map_append]
    exact List.sublist_append_left _ _

theorem Embeds.tail (hne : h ≠ []) (hxy : Embeds n h t (n :: x) (n :: y)) : Embeds n h t x y := by
  have hblank : ∀ x : List α, (n :: x).splitOn n = [] :: x.splitOn n :=
    fun x => List.splitOn_append_cons_self_of_not_mem (List.not_mem_nil) x
  obtain ⟨hpreamble, hsections⟩ := hxy
  rw [hblank, hblank, outline_blank hne, outline_blank hne] at hpreamble hsections
  exact ⟨(List.cons.inj hpreamble).2, hsections⟩

omit [DecidableEq α] in
@[simp] theorem compose_cons_left (a : α) : compose f (a :: v, l) = a :: compose f (v, l) := rfl

omit [DecidableEq α] in
/-- What follows an entry is nothing, or a separator and a text that begins with a heading. -/
theorem halts_cases (hne : t ≠ []) (hn : n ∉ t)
    (hhalts : Halts (n :: h) (compose ((t ++ [n]) ++ ·) (v, l))) :
    (v = [] ∧ l = []) ∨ ∃ w, v = n :: w ∧ h <+: compose ((t ++ [n]) ++ ·) (w, l) := by
  cases v with
  | cons a w =>
    obtain hnil | hbegins := hhalts
    · cases hnil
    · obtain ⟨rfl, hw⟩ := List.cons_prefix_cons.mp hbegins
      exact Or.inr ⟨w, rfl, hw⟩
  | nil =>
    cases l with
    | nil => exact Or.inl ⟨rfl, rfl⟩
    | cons q l =>
      obtain ⟨a, t, rfl⟩ := List.exists_cons_of_ne_nil hne
      obtain hnil | hbegins := hhalts
      · cases hnil
      · obtain ⟨rfl, _⟩ := List.cons_prefix_cons.mp hbegins
        exact absurd List.mem_cons_self hn

/-- New bodies for entries that are whole sections. -/
theorem embeds_compose (hn : n ∉ t) (hh : n ∉ h) (hne : h ≠ []) (ht : h <+: t)
    (hparsed : Parsed (t ++ [n]) (n :: h) u l) (hproper : Proper n h u l) :
    Embeds n h t (compose ((t ++ [n]) ++ ·) (u, l)) (compose (fun b => (t ++ [n]) ++ f b) (u, l)) := by
  induction hparsed with
  | last hu =>
    rw [compose_nil, compose_nil]
    exact Embeds.refl n h t _
  | @entry u b v l _ hb hhalts _ ih =>
    obtain ⟨hu, hplain, hrest⟩ := hproper
    have htne : t ≠ [] := by
      rintro rfl
      exact hne (List.prefix_nil.mp ht)
    rw [compose_cons, compose_cons]
    rcases halts_cases htne hn hhalts with ⟨rfl, rfl⟩ | ⟨w, rfl, hw⟩
    · simp only [compose_nil, List.append_nil, List.append_assoc, List.cons_append, List.nil_append]
        at hb ⊢
      exact Embeds.last hn ht hu hplain hb (f b)
    · rw [compose_cons_left] at hb ⊢
      rw [compose_cons_left]
      have hnext : Embeds n h t (compose ((t ++ [n]) ++ ·) (w, l))
          (compose (fun b => (t ++ [n]) ++ f b) (w, l)) := (ih hrest).tail hne
      simp only [List.append_assoc, List.cons_append, List.nil_append] at hb hw hnext ⊢
      exact hnext.body hn hh ht hu hplain hb hw (f b)

end Bodies

end Text
