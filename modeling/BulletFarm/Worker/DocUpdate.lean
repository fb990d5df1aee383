import BulletFarm.Text.Lines
import BulletFarm.Worker.SkillTools
import BulletFarm.Worker.Template

/-!
# What an update of a document writes

A section that is not there is appended. One that is there is replaced by a regular
expression, and the new text of the section is its template: the section can be found
again if the template means itself and some match begins a line.
-/

namespace BulletFarm.Worker

open Interaction Python Text

set_option autoImplicit false

/-! ## `doc_update` -/

def heading (title : List Char) : List Char := "## ".toList ++ title

def headingLine (title : List Char) : List Char := heading title ++ ['\n']

def nextHeading : List Char := '\n' :: "## ".toList

def sectionText (title content : List Char) : List Char := headingLine title ++ (content ++ ['\n'])

/-- The groups of a match of the heading line and the body after it. -/
def matchGroups (title body : List Char) : Nat → List Char
  | 0 => headingLine title ++ body
  | 1 => headingLine title
  | _ => body

/-- `re.sub` with the heading line and, as little as can be, all up to the next heading or
the end. -/
def subSections (title template existing : List Char) : Except Exc (List Char) :=
  (parseTemplate 2 template).map fun pieces =>
    substitute (headingLine title) nextHeading (fun body => expand (matchGroups title body) pieces) existing

def updateText (title content existing : List Char) : Except Exc (List Char) :=
  if heading title <:+: existing then subSections title (sectionText title content) existing
  else .ok (existing ++ '\n' :: sectionText title content)

def readExisting (path : String) : FileM String :=
  Effect.attempt (.read path) fun
    | .ok text => .ok text
    | .error (.fileNotFound _) => .ok ""
    | .error (.other exc) => .error exc

def updated (filePath title : String) : String := "Updated section '" ++ title ++ "' in " ++ filePath

/-- What `doc_update` tries. -/
def tryUpdate (filePath title content : String) : FileM String := do
  let existing ← readExisting filePath
  let text ← Effect.ofExcept (updateText title.toList content.toList existing.toList)
  writeText filePath (String.ofList text)
  pure (updated filePath title)

def docUpdate (filePath title content : String) : FileM String :=
  tryCatch (tryUpdate filePath title content) fun e => pure ("Error updating docs: " ++ e.text)

/-! ## Runs of an update -/

/-- The text that an update finds in a file. -/
def asRead : Option String → List Char
  | some t => universalNewlines t.toList
  | none => []

/-- A call that fails, but for the reading of a file that is not there. -/
def Fails : Event FileOp.Resp → Prop
  | ⟨.read _, .error (.other _)⟩ => True
  | ⟨.write _ _, .error _⟩ => True
  | _ => False

section Runs
variable {path title content : String} {w w' : Files} {tr : List (Event FileOp.Resp)}
  {r : Except Exc String} {s s' : Unit}

theorem readExisting_reads (h : (readExisting path).Ends s tr r s')
    (hw : Threads Files.Serves w tr w') : w' = w ∧
      (r = .ok (String.ofList (asRead (w path))) ∧ (∀ e ∈ tr, ¬ Fails e) ∨
        (∃ exc, r = .error exc) ∧ ∃ e ∈ tr, Fails e) := by
  obtain ⟨x, rfl, rfl, _⟩ := Effect.ends_attempt h
  obtain ⟨w₁, hserves, hnil⟩ := hw.of_cons
  rw [hnil.of_nil]
  rcases x with (exc | exc) | text
  · obtain ⟨rfl, hnone⟩ := hserves
    rw [hnone]
    exact ⟨rfl, Or.inl ⟨rfl, by simp [Fails]⟩⟩
  · exact ⟨hserves, Or.inr ⟨⟨exc, rfl⟩, _, List.mem_singleton_self _, trivial⟩⟩
  · obtain ⟨rfl, t, ht, rfl⟩ := hserves
    rw [ht]
    exact ⟨rfl, Or.inl ⟨rfl, by simp [Fails]⟩⟩

/-- The new text is in the file, or a call has failed. -/
theorem write_ends {y done : String}
    (h : (writeText path y >>= fun _ => pure done).Ends s tr r s') (hw : Threads Files.Serves w tr w') :
    (r = .ok done ∧ w' path = some y ∧ ∀ e ∈ tr, ¬ Fails e) ∨ (∃ exc, r = .error exc) ∧ ∃ e ∈ tr, Fails e := by
  rcases Effect.ends_bind h with ⟨tr₁, tr₂, _, s₁, rfl, h₁, h₂⟩ | ⟨exc, rfl, h₁⟩
  · obtain ⟨rfl, rfl, _⟩ := Effect.ends_pure h₂
    rw [List.append_nil] at hw ⊢
    have hwrites := writeText_writes h₁ hw
    generalize w' path = after at hwrites
    cases hwrites
    exact Or.inl ⟨rfl, rfl, by simp [Fails]⟩
  · have hwrites := writeText_writes h₁ hw
    generalize w' path = after at hwrites
    refine Or.inr ⟨⟨exc, rfl⟩, ?_⟩
    cases hwrites <;> exact ⟨_, List.mem_singleton_self _, trivial⟩

theorem tryUpdate_ends (h : (tryUpdate path title content).Ends s tr r s')
    (hw : Threads Files.Serves w tr w') :
    (r = .ok (updated path title) ∧ (∀ e ∈ tr, ¬ Fails e) ∧ ∃ y,
      updateText title.toList content.toList (asRead (w path)) = .ok y ∧
        w' path = some (String.ofList y)) ∨
    ∃ exc, r = .error exc ∧
      (updateText title.toList content.toList (asRead (w path)) = .error exc ∨ ∃ e ∈ tr, Fails e) := by
  rcases Effect.ends_bind h with ⟨tr₁, tr₂, existing, s₁, rfl, h₁, h₂⟩ | ⟨exc, rfl, h₁⟩
  · obtain ⟨w₁, hw₁, hw₂⟩ := hw.of_append
    obtain ⟨rfl, ⟨hread, hserved⟩ | ⟨⟨exc, hexc⟩, _⟩⟩ := readExisting_reads h₁ hw₁
    · cases hread
      rcases Effect.ends_bind h₂ with ⟨tr₃, tr₄, y, s₂, rfl, h₃, h₄⟩ | ⟨exc, rfl, h₃⟩
      · obtain ⟨rfl, hy, rfl⟩ := Effect.ends_ofExcept h₃
        rw [String.toList_ofList] at hy
        rw [List.nil_append] at hw₂
        rcases write_ends h₄ hw₂ with ⟨rfl, hafter, hwritten⟩ | ⟨⟨exc, rfl⟩, e, he, hfails⟩
        · refine Or.inl ⟨rfl, ?_, y, hy.symm, hafter⟩
          rw [List.nil_append]
          exact List.forall_mem_append.mpr ⟨hserved, hwritten⟩
        · exact Or.inr ⟨exc, rfl, Or.inr ⟨e, by simp [he], hfails⟩⟩
      · obtain ⟨rfl, hy, rfl⟩ := Effect.ends_ofExcept h₃
        rw [String.toList_ofList] at hy
        exact Or.inr ⟨exc, rfl, Or.inl hy.symm⟩
    · cases hexc
  · obtain ⟨_, ⟨hread, _⟩ | ⟨_, hfails⟩⟩ := readExisting_reads h₁ hw
    · cases hread
    · exact Or.inr ⟨exc, rfl, Or.inr hfails⟩

/-- An update says that it has updated the section, and what it has made of the text that it
read is in the file; or it tells an error. -/
theorem docUpdate_ends (h : (docUpdate path title content).Ends s tr r s')
    (hw : Threads Files.Serves w tr w') :
    (r = .ok (updated path title) ∧ (∀ e ∈ tr, ¬ Fails e) ∧ ∃ y,
      updateText title.toList content.toList (asRead (w path)) = .ok y ∧
        w' path = some (String.ofList y)) ∨
    ∃ exc, r = .ok ("Error updating docs: " ++ exc.text) ∧
      (updateText title.toList content.toList (asRead (w path)) = .error exc ∨ ∃ e ∈ tr, Fails e) := by
  rcases Effect.ends_tryCatch h with ⟨message, rfl, h₁⟩ | ⟨tr₁, tr₂, exc, s₁, rfl, h₁, h₂⟩
  · rcases tryUpdate_ends h₁ hw with hdone | ⟨exc, hexc, _⟩
    · exact Or.inl hdone
    · cases hexc
  · obtain ⟨rfl, rfl, _⟩ := Effect.ends_pure h₂
    rw [List.append_nil] at hw ⊢
    rcases tryUpdate_ends h₁ hw with ⟨hmessage, _⟩ | ⟨_, hexc, hwhy⟩
    · cases hmessage
    · cases hexc
      exact Or.inr ⟨exc, rfl, hwhy⟩

theorem updated_ne (exc : Exc) : updated path title ≠ "Error updating docs: " ++ exc.text := by
  intro h
  have hhead := congrArg (fun s => s.toList.head?) h
  unfold updated at hhead
  rw [String.toList_append, String.toList_append, String.toList_append, String.toList_append] at hhead
  have hfirst : some 'U' = some 'E' := hhead
  cases hfirst

theorem docUpdate_updated (h : (docUpdate path title content).Ends s tr (.ok (updated path title)) s')
    (hw : Threads Files.Serves w tr w') : ∃ y,
      updateText title.toList content.toList (asRead (w path)) = .ok y ∧
        w' path = some (String.ofList y) := by
  rcases docUpdate_ends h hw with ⟨_, _, hdone⟩ | ⟨exc, hexc, _⟩
  · exact hdone
  · exact absurd (Except.ok.inj hexc) (updated_ne exc)

end Runs

/-! ## The section is there -/

/-- A title without an end of a line. -/
def SingleLine (title : List Char) : Prop := '\n' ∉ title ∧ '\r' ∉ title

/-- A line is the heading, and the content and a line feed come after it. -/
def HasSection (title content text : List Char) : Prop :=
  '\n' :: sectionText title content <:+: '\n' :: text

/-- The matches of the regular expression in a text. -/
def matchesOf (title existing : List Char) : Parts Char :=
  parts (headingLine title) nextHeading existing

/-- The section is appended, or its new text means itself and some match begins a line. -/
def Findable (title content existing : List Char) : Prop :=
  ¬ heading title <:+: existing ∨ Inert (sectionText title content) ∧
    LineStart '\n' (matchesOf title existing).1 (matchesOf title existing).2

section Update
variable {title content existing text : List Char}

theorem not_mem_heading (h : SingleLine title) : '\n' ∉ heading title := by
  simp [heading, h.1]

theorem heading_ne_nil : heading title ≠ [] := by simp [heading]

/-- A new text that means itself is put in the place of every match. -/
theorem subSections_inert (h : Inert (sectionText title content)) :
    subSections title (sectionText title content) existing =
      .ok (compose (fun _ => sectionText title content) (matchesOf title existing)) := by
  unfold subSections substitute
  rw [parseTemplate_inert h]
  simp only [Except.map, expand_literals]
  rfl

theorem headingLine_ne_nil (title : List Char) : headingLine title ≠ [] := by simp [headingLine]

theorem matchesOf_text (title existing : List Char) :
    compose (headingLine title ++ ·) (matchesOf title existing) = existing :=
  (parts_parsed (headingLine_ne_nil title) existing).1

theorem matchesOf_parsed (title existing : List Char) :
    Parsed (headingLine title) nextHeading (matchesOf title existing).1 (matchesOf title existing).2 :=
  (parts_parsed (headingLine_ne_nil title) existing).2

theorem matches_eq_nil_iff : (matchesOf title existing).2 = [] ↔ ¬ headingLine title <:+: existing := by
  have hp := headingLine_ne_nil title
  rw [← breakOn_eq_nil_iff hp]
  by_cases hrest : (breakOn (headingLine title) existing).2 = []
  · simp [matchesOf, parts_none hrest, hrest]
  · simp [matchesOf, parts_some hp hrest, hrest]

theorem hasSection_append : HasSection title content (existing ++ '\n' :: sectionText title content) :=
  ⟨'\n' :: existing, [], by simp⟩

theorem hasSection_iff (hT : SingleLine title) (hinert : Inert (sectionText title content))
    (h : updateText title content existing = .ok text) :
    HasSection title content text ↔ Findable title content existing := by
  unfold updateText at h
  split at h
  · next hthere =>
    rw [subSections_inert hinert] at h
    cases h
    have hput := put_get_iff (c := content) (not_mem_heading hT) heading_ne_nil
      (matchesOf_parsed title existing)
    refine hput.trans ?_
    simp [Findable, hthere, hinert]
  · next hthere =>
    cases h
    exact iff_of_true hasSection_append (Or.inl hthere)

theorem Findable.hasSection (hT : SingleLine title) (hfound : Findable title content existing)
    (h : updateText title content existing = .ok text) : HasSection title content text := by
  rcases hfound with hnot | ⟨hinert, hstart⟩
  · unfold updateText at h
    rw [if_neg hnot] at h
    cases h
    exact hasSection_append
  · exact (hasSection_iff hT hinert h).mpr (Or.inr ⟨hinert, hstart⟩)

end Update

section Law
variable {path title content : String} {w w' : Files} {tr : List (Event FileOp.Resp)} {s s' : Unit}

/-- For every run that says that it has updated the section: it can be found in the file if
it was appended, or if its new text means itself and some match begins a line; where the
new text means itself, only then. -/
theorem docUpdate_found (hT : SingleLine title.toList)
    (h : (docUpdate path title content).Ends s tr (.ok (updated path title)) s')
    (hw : Threads Files.Serves w tr w') : ∃ text, w' path = some text ∧
      (Findable title.toList content.toList (asRead (w path)) →
        HasSection title.toList content.toList text.toList) ∧
      (Inert (sectionText title.toList content.toList) →
        (HasSection title.toList content.toList text.toList ↔
          Findable title.toList content.toList (asRead (w path)))) := by
  obtain ⟨y, hy, hafter⟩ := docUpdate_updated h hw
  refine ⟨String.ofList y, hafter, ?_⟩
  rw [String.toList_ofList]
  exact ⟨fun hfound => hfound.hasSection hT hy, fun hinert => hasSection_iff hT hinert hy⟩

end Law

/-! ## Two documents -/

def docPath : String := "/workspace/README.md"

def docFiles (t : String) : Files := fun path => if path = docPath then some t else none

/-- An update on a file system that works. -/
def docRun (title content t : String) :
    List (Event FileOp.Resp) × (Except Exc String × Unit) × Files :=
  play Files.respond ((docUpdate docPath title content).start ()) (docFiles t)

theorem docRun_serves (title content t : String) :
    Threads Files.Serves (docFiles t) (docRun title content t).1 (docRun title content t).2.2 :=
  threads_play Files.respond Files.serves_respond _ _

theorem docRun_ends {title content t : String}
    (h : (docRun title content t).2.1.1 = .ok (updated docPath title)) :
    (docUpdate docPath title content).Ends () (docRun title content t).1 (.ok (updated docPath title)) () := by
  have hend : (docRun title content t).2.1 = (.ok (updated docPath title), ()) :=
    Prod.ext h (Subsingleton.elim _ _)
  unfold Effect.Ends
  rw [← hend]
  exact runs_play Files.respond ((docUpdate docPath title content).start ()) (docFiles t)

theorem docUpdate_found_demo : ∃ text, (docRun "API" "new" "# Doc\n\n## API\nold\n").2.2 docPath = some text ∧
    (Findable "API".toList "new".toList (asRead (docFiles "# Doc\n\n## API\nold\n" docPath)) →
      HasSection "API".toList "new".toList text.toList) ∧
    (Inert (sectionText "API".toList "new".toList) →
      (HasSection "API".toList "new".toList text.toList ↔
        Findable "API".toList "new".toList (asRead (docFiles "# Doc\n\n## API\nold\n" docPath)))) :=
  docUpdate_found ⟨by decide, by decide⟩ (docRun_ends (by decide +kernel))
    (docRun_serves "API" "new" "# Doc\n\n## API\nold\n")

/-- A heading that goes on after the title is taken for the section and nothing is written,
and a backslash in the content is written as what it means in a template. -/
theorem docUpdate_missing :
    (∃ tr s' w₁ text, (docUpdate docPath "API" "new").Ends () tr (.ok (updated docPath "API")) s' ∧
      Threads Files.Serves (docFiles "## API notes\nold\n") tr w₁ ∧ w₁ docPath = some text ∧
        ¬ HasSection "API".toList "new".toList text.toList) ∧
    ∃ tr s' w₁ text, (docUpdate docPath "API" "C:\\new").Ends () tr (.ok (updated docPath "API")) s' ∧
      Threads Files.Serves (docFiles "## API\nold\n") tr w₁ ∧ w₁ docPath = some text ∧
        ¬ HasSection "API".toList "C:\\new".toList text.toList := by
  refine ⟨⟨_, _, _, "## API notes\nold\n", docRun_ends (by decide +kernel), docRun_serves "API" "new" _,
      by decide +kernel, ?_⟩,
    ⟨_, _, _, "## API\nC:\new\n", docRun_ends (by decide +kernel), docRun_serves "API" "C:\\new" _,
      by decide +kernel, ?_⟩⟩
  · unfold HasSection
    decide +kernel
  · unfold HasSection
    decide +kernel

example : (docRun "API" "new" "").2.2 docPath = some "\n## API\nnew\n" := by decide +kernel

end BulletFarm.Worker
