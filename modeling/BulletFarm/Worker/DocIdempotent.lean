import BulletFarm.Worker.DocUpdate

/-!
# The same update again

A second update reads what the first has written. It leaves the file alone exactly if
nothing matches, or if no heading stands inside the new text of the section; and a section
is appended and replaced with the same text exactly if that text means itself.
-/

namespace BulletFarm.Worker

open Interaction Python Text

set_option autoImplicit false

/-! ## Appended and replaced -/

/-- Whatever a match has in its body, it is replaced by the text that would be appended. -/
def SameText (title content : List Char) : Prop :=
  ∃ pieces, parseTemplate 2 (sectionText title content) = .ok pieces ∧
    ∀ body, expand (matchGroups title body) pieces = sectionText title content

section Same
variable {title content : List Char}

/-- With the body `x`, every group begins with a character that no escape sequence is for. -/
theorem matchGroups_marked (title : List Char) : Marked 2 (matchGroups title ['x']) := by
  have hhash : ¬ Mark '#' := by
    unfold Mark
    decide
  have hx : ¬ Mark 'x' := by
    unfold Mark
    decide
  intro index _
  match index with
  | 0 => exact ⟨'#', _, rfl, hhash⟩
  | 1 => exact ⟨'#', _, rfl, hhash⟩
  | _ + 2 => exact ⟨'x', [], rfl, hx⟩

theorem sameText_iff : SameText title content ↔ Inert (sectionText title content) := by
  constructor
  · rintro ⟨pieces, hparse, hsame⟩
    exact inert_of_expand (matchGroups_marked title) hparse (hsame ['x'])
  · intro h
    exact ⟨_, parseTemplate_inert h, fun body => expand_literals _⟩

end Same

/-! ## What is read again -/

/-- The content with the line feed after it, as it is read. -/
def reread (content : List Char) : List Char := universalNewlines (content ++ ['\n'])

section Reread
variable {title content existing text u : List Char} {l : List (List Char × List Char)}

theorem not_mem_asRead (before : Option String) : '\r' ∉ asRead before := by
  cases before with
  | none => exact List.not_mem_nil
  | some t => exact not_mem_universalNewlines t.toList

theorem reread_endsIn (content : List Char) : EndsIn '\n' (reread content) :=
  universalNewlines_endsIn (EndsIn.concat '\n' content)

theorem not_mem_headingLine (hT : SingleLine title) : '\r' ∉ headingLine title := by
  simp [headingLine, heading, hT.2]

theorem universalNewlines_section (hT : SingleLine title) (x : List Char) :
    universalNewlines (sectionText title content ++ x) =
      (headingLine title ++ reread content) ++ universalNewlines x := by
  have hends : EndsIn '\n' (content ++ ['\n']) := EndsIn.concat '\n' content
  unfold sectionText
  rw [List.append_assoc, universalNewlines_append (not_mem_headingLine hT),
    universalNewlines_apart hends, List.append_assoc]
  rfl

/-- New texts in the places of the entries of a text without carriage returns. -/
theorem universalNewlines_compose (hT : SingleLine title)
    (h : '\r' ∉ compose (headingLine title ++ ·) (u, l)) :
    universalNewlines (compose (fun _ => sectionText title content) (u, l)) =
      compose (fun _ => headingLine title ++ reread content) (u, l) := by
  induction l generalizing u with
  | nil =>
    rw [compose_nil] at h ⊢
    rw [compose_nil, universalNewlines_of_not_mem h]
  | cons q l ih =>
    obtain ⟨b, v⟩ := q
    rw [compose_cons] at h
    simp only [List.mem_append, not_or] at h
    rw [compose_cons, compose_cons, universalNewlines_append h.1, universalNewlines_section hT, ih h.2.2]

end Reread

/-! ## The second update -/

/-- The first update finds the title but no section, or the content has no heading line but
the first. -/
def Repeats (title content existing : List Char) : Prop :=
  (heading title <:+: existing ∧ ¬ headingLine title <:+: existing) ∨
    ¬ nextHeading <:+: reread content

section Second
variable {title content existing text : List Char}

/-- A title that is not in a text is not found at its end either, once a line has been added. -/
theorem clear_appended (hT : SingleLine title) (h : ¬ heading title <:+: existing) :
    Clear (headingLine title) (existing ++ ['\n']) (headingLine title) := by
  rw [clear_append]
  constructor
  · by_contra hnot
    obtain ⟨x, a, y, rfl, hbegins⟩ := not_clear hnot
    have hheading : heading title <+: (a :: y) ++ '\n' :: headingLine title :=
      List.IsPrefix.trans ⟨['\n'], rfl⟩ hbegins
    have hinside := (word_prefix_iff (not_mem_heading hT)).mp hheading
    exact h (hinside.isInfix.trans ⟨x, [], by simp⟩)
  · simp [headingLine, heading]

/-- What the first update has written: the text of the section in the places of entries, of
which there are none only if the title was found without a section. -/
theorem updateText_parts (hT : SingleLine title) (hinert : Inert (sectionText title content))
    (hclean : '\r' ∉ existing) (h : updateText title content existing = .ok text) :
    ∃ u l, text = compose (fun _ => sectionText title content) (u, l) ∧
      Parsed (headingLine title) nextHeading u l ∧ '\r' ∉ compose (headingLine title ++ ·) (u, l) ∧
      (l = [] → heading title <:+: u) ∧
      (l = [] ↔ heading title <:+: existing ∧ ¬ headingLine title <:+: existing) := by
  unfold updateText at h
  split at h
  · next hthere =>
    rw [subSections_inert hinert] at h
    cases h
    have htext := matchesOf_text title existing
    refine ⟨(matchesOf title existing).1, (matchesOf title existing).2, rfl,
      matchesOf_parsed title existing, htext.symm ▸ hclean, fun hl => ?_, ?_⟩
    · generalize matchesOf title existing = q at htext hl ⊢
      obtain ⟨u, l⟩ := q
      obtain rfl : l = [] := hl
      rw [compose_nil] at htext
      exact htext ▸ hthere
    · rw [matches_eq_nil_iff]
      exact (and_iff_right hthere).symm
  · next hthere =>
    cases h
    refine ⟨existing ++ ['\n'], [([], [])], by simp, ?_, ?_, by simp, by simp [hthere]⟩
    · exact .entry (clear_appended hT hthere) trivial (Or.inl (by simp)) (.last trivial)
    · simp [hclean, not_mem_headingLine hT]

/-- The second update succeeds, and leaves the text alone exactly if nothing matches or no
heading stands in the new text of the section. -/
theorem updateText_again (hT : SingleLine title) (hinert : Inert (sectionText title content))
    (hclean : '\r' ∉ existing) (h : updateText title content existing = .ok text) :
    ∃ again, updateText title content (universalNewlines text) = .ok again ∧
      (again = text ↔ Repeats title content existing) := by
  obtain ⟨u, l, rfl, hparsed, hreturn, hempty, hnone⟩ := updateText_parts hT hinert hclean h
  rw [universalNewlines_compose hT hreturn]
  have hthere : heading title <:+:
      compose (fun _ => headingLine title ++ reread content) (u, l) := by
    cases l with
    | nil =>
      rw [compose_nil]
      exact hempty rfl
    | cons q l =>
      rw [compose_cons]
      refine ⟨u, '\n' :: (reread content ++
        compose (fun _ => headingLine title ++ reread content) (q.2, l)), ?_⟩
      simp [headingLine]
  unfold updateText
  rw [if_pos hthere]
  have hsub : subSections title (sectionText title content)
      (compose (fun _ => headingLine title ++ reread content) (u, l)) =
        .ok (substitute (headingLine title) nextHeading (fun _ => sectionText title content)
          (compose (fun _ => headingLine title ++ reread content) (u, l))) := by
    rw [subSections_inert hinert]
    rfl
  have hsecond : substitute (headingLine title) nextHeading (fun _ => sectionText title content)
      (compose (fun _ => headingLine title ++ reread content) (u, l)) =
        compose (fun _ => sectionText title content ++ substitute (headingLine title) nextHeading
          (fun _ => sectionText title content) (breakOn nextHeading (reread content)).2) (u, l) :=
    substitute_compose (by decide) (not_mem_heading hT) (by simp [heading])
      (reread_endsIn content) (sectionText title content) hparsed
  refine ⟨_, hsub.trans (congrArg Except.ok hsecond), ?_⟩
  have hmark : nextHeading ≠ [] := List.cons_ne_nil _ _
  rw [compose_append_eq_iff, substitute_eq_nil_iff (headingLine_ne_nil title),
    breakOn_eq_nil_iff hmark]
  · exact or_congr_left hnone
  · intro _
    simp [sectionText, headingLine]

end Second

section Law
variable {path title content : String} {w w₁ w₂ : Files} {tr₁ tr₂ : List (Event FileOp.Resp)}
  {r : Except Exc String} {s₁ s₁' s₂ s₂' : Unit}

/-- After an update that says that it has updated the section, the same update again says so
and leaves the file as it is, and a section is appended and replaced with the same text,
exactly if no call of it fails, the text of the section means itself, and it repeats. -/
theorem docUpdate_again_iff (hT : SingleLine title.toList)
    (h₁ : (docUpdate path title content).Ends s₁ tr₁ (.ok (updated path title)) s₁')
    (hw₁ : Threads Files.Serves w tr₁ w₁)
    (h₂ : (docUpdate path title content).Ends s₂ tr₂ r s₂') (hw₂ : Threads Files.Serves w₁ tr₂ w₂) :
    (r = .ok (updated path title) ∧ w₂ path = w₁ path ∧ SameText title.toList content.toList) ↔
      (∀ e ∈ tr₂, ¬ Fails e) ∧ Inert (sectionText title.toList content.toList) ∧
        Repeats title.toList content.toList (asRead (w path)) := by
  obtain ⟨y, hy, hafter⟩ := docUpdate_updated h₁ hw₁
  have hread : asRead (w₁ path) = universalNewlines y := by
    rw [hafter]
    exact congrArg universalNewlines String.toList_ofList
  rw [sameText_iff]
  rcases docUpdate_ends h₂ hw₂ with ⟨hr, hserved, z, hz, hlast⟩ | ⟨exc, hr, hwhy⟩
  · rw [hread] at hz
    have hsame : ∀ hinert : Inert (sectionText title.toList content.toList),
        w₂ path = w₁ path ↔ Repeats title.toList content.toList (asRead (w path)) := by
      intro hinert
      obtain ⟨again, hagain, hiff⟩ := updateText_again hT hinert (not_mem_asRead _) hy
      obtain rfl : z = again := Except.ok.inj (hz.symm.trans hagain)
      rw [← hiff, hlast, hafter]
      exact ⟨fun h => ofList_injective (Option.some.inj h), fun h => congrArg (some ∘ String.ofList) h⟩
    constructor
    · rintro ⟨_, hfile, hinert⟩
      exact ⟨hserved, hinert, (hsame hinert).mp hfile⟩
    · rintro ⟨_, hinert, hrepeats⟩
      exact ⟨hr, (hsame hinert).mpr hrepeats, hinert⟩
  · constructor
    · rintro ⟨hupdated, _⟩
      exact absurd (Except.ok.inj (hupdated.symm.trans hr)) (updated_ne exc)
    · rintro ⟨hserved, hinert, _⟩
      obtain ⟨again, hagain, _⟩ := updateText_again hT hinert (not_mem_asRead _) hy
      rcases hwhy with herror | ⟨e, he, hfails⟩
      · rw [hread, hagain] at herror
        cases herror
      · exact absurd hfails (hserved e he)

end Law

/-! ## An update made twice -/

/-- The second of two updates on a file system that works. -/
def docRunAgain (title content t : String) :
    List (Event FileOp.Resp) × (Except Exc String × Unit) × Files :=
  play Files.respond ((docUpdate docPath title content).start ()) (docRun title content t).2.2

theorem docRunAgain_serves (title content t : String) : Threads Files.Serves
    (docRun title content t).2.2 (docRunAgain title content t).1 (docRunAgain title content t).2.2 :=
  threads_play Files.respond Files.serves_respond _ _

theorem docUpdate_again_iff_demo :
    ((docRunAgain "API" "new" "# Doc\n").2.1.1 = .ok (updated docPath "API") ∧
        (docRunAgain "API" "new" "# Doc\n").2.2 docPath = (docRun "API" "new" "# Doc\n").2.2 docPath ∧
        SameText "API".toList "new".toList) ↔
      (∀ e ∈ (docRunAgain "API" "new" "# Doc\n").1, ¬ Fails e) ∧
        Inert (sectionText "API".toList "new".toList) ∧
        Repeats "API".toList "new".toList (asRead (docFiles "# Doc\n" docPath)) :=
  docUpdate_again_iff ⟨by decide, by decide⟩ (docRun_ends (by decide +kernel))
    (docRun_serves "API" "new" "# Doc\n") (runs_play _ _ _) (docRunAgain_serves "API" "new" "# Doc\n")

theorem docRunAgain_ends {title content t : String} {r : Except Exc String}
    (h : (docRunAgain title content t).2.1.1 = r) :
    (docUpdate docPath title content).Ends () (docRunAgain title content t).1 r () := by
  have hend : (docRunAgain title content t).2.1 = (r, ()) :=
    Prod.ext h (Subsingleton.elim _ _)
  unfold Effect.Ends
  rw [← hend]
  exact runs_play Files.respond ((docUpdate docPath title content).start ()) (docRun title content t).2.2

/-- What is told of a content that is no template. -/
def badEscape : String := "Error updating docs: bad escape \\d at position 7 (line 2, column 1)"

/-- A content with a heading line is written once more by every update, and a content with
a backslash may not be written by the second one at all. -/
theorem docUpdate_repeats_not :
    (∃ tr₁ tr₂ w₁ w₂, (docUpdate docPath "API" "a\n## B\nb").Ends () tr₁ (.ok (updated docPath "API")) () ∧
      Threads Files.Serves (docFiles "") tr₁ w₁ ∧
      (docUpdate docPath "API" "a\n## B\nb").Ends () tr₂ (.ok (updated docPath "API")) () ∧
      Threads Files.Serves w₁ tr₂ w₂ ∧ w₂ docPath ≠ w₁ docPath) ∧
    ∃ tr₁ tr₂ w₁ w₂, (docUpdate docPath "API" "\\d+").Ends () tr₁ (.ok (updated docPath "API")) () ∧
      Threads Files.Serves (docFiles "") tr₁ w₁ ∧
      (docUpdate docPath "API" "\\d+").Ends () tr₂ (.ok badEscape) () ∧ Threads Files.Serves w₁ tr₂ w₂ := by
  constructor
  · have hfirst : (docRun "API" "a\n## B\nb" "").2.1.1 = .ok (updated docPath "API") := by decide +kernel
    have hsecond : (docRunAgain "API" "a\n## B\nb" "").2.1.1 = .ok (updated docPath "API") := by
      decide +kernel
    have hfile : (docRunAgain "API" "a\n## B\nb" "").2.2 docPath ≠
        (docRun "API" "a\n## B\nb" "").2.2 docPath := by decide +kernel
    exact ⟨_, _, _, _, docRun_ends hfirst, docRun_serves _ _ _, docRunAgain_ends hsecond,
      docRunAgain_serves _ _ _, hfile⟩
  · have hfirst : (docRun "API" "\\d+" "").2.1.1 = .ok (updated docPath "API") := by decide +kernel
    have hsecond : (docRunAgain "API" "\\d+" "").2.1.1 = .ok badEscape := by decide +kernel
    exact ⟨_, _, _, _, docRun_ends hfirst, docRun_serves _ _ _, docRunAgain_ends hsecond,
      docRunAgain_serves _ _ _⟩

end BulletFarm.Worker
