import BulletFarm.Text.Outline
import BulletFarm.Worker.DocUpdate

/-!
# The sections that an update leaves alone

The regular expression of an update takes the heading for its own wherever it stands in a
line, and the body of an empty section is the section that follows. Where every match is
a whole section, the others are as they were.
-/

namespace BulletFarm.Worker

open Interaction Python Text

set_option autoImplicit false

def headingMark : List Char := "## ".toList

/-- Nothing matches, or the heading means itself in a template and every match begins a line
and has a body that does not begin with a heading. -/
def Separate (title existing : List Char) : Prop :=
  ¬ headingLine title <:+: existing ∨ Inert (headingLine title) ∧
    Proper '\n' headingMark (matchesOf title existing).1 (matchesOf title existing).2

section Update
variable {title content existing text : List Char}

/-- The heading stands first in whatever the template makes of a match. -/
theorem subSections_heading (hheading : Inert (headingLine title))
    (h : subSections title (sectionText title content) existing = .ok text) : ∃ f : List Char → List Char,
      text = compose (fun body => headingLine title ++ f body) (matchesOf title existing) := by
  obtain ⟨pieces, hpieces, rfl⟩ := map_ok h
  have hends : EndsIn '\n' (headingLine title) := EndsIn.concat '\n' (heading title)
  obtain ⟨more, rfl⟩ := readFrom_line hheading hends (by simp [sectionText]) hpieces
  refine ⟨fun body => expand (matchGroups title body) more, ?_⟩
  unfold substitute
  simp only [expand_append, expand_literals]
  rfl

theorem Separate.embeds (hT : SingleLine title) (hseparate : Separate title existing)
    (h : updateText title content existing = .ok text) :
    Embeds '\n' headingMark (heading title) existing text := by
  have hmark : headingMark <+: heading title := ⟨title, rfl⟩
  unfold updateText at h
  split at h
  · have hexisting := matchesOf_text title existing
    rcases hseparate with hnone | ⟨hheading, hproper⟩
    · obtain ⟨pieces, _, rfl⟩ := map_ok h
      have hempty := matches_eq_nil_iff.mpr hnone
      unfold substitute
      unfold matchesOf at hexisting hempty
      generalize parts (headingLine title) nextHeading existing = q at hexisting hempty ⊢
      obtain ⟨u, l⟩ := q
      obtain rfl : l = [] := hempty
      rw [compose_nil] at hexisting ⊢
      rw [hexisting]
      exact Embeds.refl _ _ _ _
    · obtain ⟨f, rfl⟩ := subSections_heading hheading h
      have hembeds : Embeds '\n' headingMark (heading title)
          (compose (headingLine title ++ ·) (matchesOf title existing))
          (compose (fun body => headingLine title ++ f body) (matchesOf title existing)) :=
        embeds_compose (not_mem_heading hT) (by decide) (by decide) hmark
          (matchesOf_parsed title existing) hproper
      rwa [hexisting] at hembeds
  · cases h
    exact Embeds.added (by decide) (hmark.trans ⟨_, by simp [sectionText, headingLine]; rfl⟩)

end Update

section Law
variable {path title content : String} {w w' : Files} {tr : List (Event FileOp.Resp)} {s s' : Unit}

/-- For every run that says that it has updated the section of a document without carriage
returns, in which matches are whole sections: the lines before the first section and the other
sections are as they were, in the same order. -/
theorem docUpdate_framed (hT : SingleLine title.toList)
    (h : (docUpdate path title content).Ends s tr (.ok (updated path title)) s')
    (hw : Threads Files.Serves w tr w') : ∃ text, w' path = some text ∧
      ∀ before, w path = some before → '\r' ∉ before.toList → Separate title.toList before.toList →
        Framed '\n' headingMark (heading title.toList) before.toList text.toList := by
  obtain ⟨y, hy, hafter⟩ := docUpdate_updated h hw
  refine ⟨String.ofList y, hafter, fun before hbefore hreturn hseparate => ?_⟩
  have hread : asRead (w path) = before.toList := by
    rw [hbefore]
    exact universalNewlines_of_not_mem hreturn
  rw [hread] at hy
  rw [String.toList_ofList]
  exact (hseparate.embeds hT hy).framed

end Law

theorem separate_demo : Separate "API".toList "# Doc\n\n## API\nold\n\n## Use\nx\n".toList := by
  have hmatches : matchesOf "API".toList "# Doc\n\n## API\nold\n\n## Use\nx\n".toList =
      ("# Doc\n\n".toList, [("old\n".toList, "\n## Use\nx\n".toList)]) := by
    decide +kernel
  refine Or.inr ⟨by simp [headingLine, heading, Inert], ?_⟩
  rw [hmatches]
  exact ⟨EndsIn.concat '\n' "# Doc\n".toList, by decide, trivial⟩

theorem docUpdate_framed_demo : ∃ text,
    (docRun "API" "new" "# Doc\n\n## API\nold\n\n## Use\nx\n").2.2 docPath = some text ∧
      Framed '\n' headingMark (heading "API".toList) "# Doc\n\n## API\nold\n\n## Use\nx\n".toList
        text.toList := by
  obtain ⟨text, htext, hframed⟩ := docUpdate_framed ⟨by decide, by decide⟩
    (docRun_ends (by decide +kernel)) (docRun_serves "API" "new" "# Doc\n\n## API\nold\n\n## Use\nx\n")
  exact ⟨text, htext, hframed _ rfl (by decide) separate_demo⟩

/-- An update of the section API makes the one text of the other, and the sections of the first
are not all there. -/
def Breaks (before after : String) : Prop :=
  ∃ tr w₁, (docUpdate docPath "API" "new").Ends () tr (.ok (updated docPath "API")) () ∧
    Threads Files.Serves (docFiles before) tr w₁ ∧ w₁ docPath = some after ∧
      ¬ Framed '\n' headingMark (heading "API".toList) before.toList after.toList

theorem breaks_of_docRun {before after : String}
    (hend : (docRun "API" "new" before).2.1.1 = .ok (updated docPath "API"))
    (hafter : (docRun "API" "new" before).2.2 docPath = some after)
    (hnot : ¬ Framed '\n' headingMark (heading "API".toList) before.toList after.toList) :
    Breaks before after :=
  ⟨_, _, docRun_ends hend, docRun_serves "API" "new" before, hafter, hnot⟩

/-- The body of an empty section is the section after it, a deeper heading with the title at its
end is taken for the section, and the line ends of the whole document become line feeds. -/
theorem docUpdate_framed_not : Breaks "## API\n## Use\nx\n" "## API\nnew\n" ∧
    Breaks "## Use\n### API\nold\n" "## Use\n### API\nnew\n" ∧
      Breaks "## API\r\nold\r\n## Use\r\nx\r\n" "## API\nnew\n\n## Use\nx\n" := by
  refine ⟨?_, ?_, ?_⟩
  · apply breaks_of_docRun (by decide +kernel) (by decide +kernel)
    intro hframed
    exact absurd hframed.2 (by decide +kernel)
  · apply breaks_of_docRun (by decide +kernel) (by decide +kernel)
    intro hframed
    exact absurd hframed.2 (by decide +kernel)
  · apply breaks_of_docRun (by decide +kernel) (by decide +kernel)
    intro hframed
    exact absurd hframed.2 (by decide +kernel)

end BulletFarm.Worker
