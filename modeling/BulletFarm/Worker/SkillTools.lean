import BulletFarm.Interaction.Triple
import BulletFarm.Text.Search
import BulletFarm.Worker.Python

/-!
# The tools that edit files

What a tool of the agent reads and writes goes through Python's text mode: a line that
ends in a carriage return is read as one that ends in a line feed, and what is written is
written as it is. A file that has been opened for writing is empty until the text is in it.
-/

namespace BulletFarm.Worker

open Interaction Python Text

set_option autoImplicit false

/-! ## Files -/

inductive ReadFailure where
  | fileNotFound (exc : Exc)
  | other (exc : Exc)

/-- A file that could not be opened, or one that was and is left with a text of its own. -/
inductive WriteFailure where
  | unopened (exc : Exc)
  | torn (exc : Exc) (left : String)

def WriteFailure.exc : WriteFailure → Exc
  | .unopened exc => exc
  | .torn exc _ => exc

inductive FileOp where
  | makedirs (path : String)
  | read (path : String)
  | write (path text : String)

namespace FileOp

@[reducible] def Resp : FileOp → Type
  | .makedirs _ => Except Exc Unit
  | .read _ => Except ReadFailure String
  | .write _ _ => Except WriteFailure Unit

end FileOp

theorem ofList_injective : Function.Injective String.ofList := by
  intro x y h
  have hlist := congrArg String.toList h
  rwa [String.toList_ofList, String.toList_ofList] at hlist

/-- What text mode makes of the ends of lines that it reads. -/
def universalNewlines : List Char → List Char
  | [] => []
  | '\r' :: '\n' :: x => '\n' :: universalNewlines x
  | '\r' :: x => '\n' :: universalNewlines x
  | c :: x => c :: universalNewlines x

theorem universalNewlines_of_not_mem {x : List Char} (h : '\r' ∉ x) : universalNewlines x = x := by
  induction x with
  | nil => rfl
  | cons c x ih =>
    obtain ⟨hc, hx⟩ := not_or.mp (mt List.mem_cons.mpr h)
    rw [universalNewlines, ih hx]
    · rintro y rfl _
      exact hc rfl
    · exact Ne.symm hc

theorem not_mem_universalNewlines (x : List Char) : '\r' ∉ universalNewlines x := by
  fun_induction universalNewlines x with
  | case1 => simp
  | case2 x ih | case3 x _ ih => simp [ih]
  | case4 c x _ hc ih => simp [ih, Ne.symm hc]

theorem universalNewlines_append {x : List Char} (h : '\r' ∉ x) (y : List Char) :
    universalNewlines (x ++ y) = x ++ universalNewlines y := by
  induction x with
  | nil => rfl
  | cons c x ih =>
    obtain ⟨hc, hx⟩ := not_or.mp (mt List.mem_cons.mpr h)
    rw [List.cons_append, universalNewlines, ih hx, List.cons_append]
    · rintro y rfl _
      exact hc rfl
    · exact Ne.symm hc

/-- A text that ends in a line feed is read apart from what follows. -/
theorem universalNewlines_apart {x : List Char} (h : EndsIn '\n' x) (y : List Char) :
    universalNewlines (x ++ y) = universalNewlines x ++ universalNewlines y := by
  fun_induction universalNewlines x with
  | case1 => rfl
  | case2 x ih => rw [List.cons_append, List.cons_append, universalNewlines, ih h.tail.tail, List.cons_append]
  | case3 x hx ih =>
    obtain ⟨c, x, rfl⟩ : ∃ c z, x = c :: z := by
      apply List.exists_cons_of_ne_nil
      rintro rfl
      rcases h with h | ⟨w, hw⟩
      · cases h
      · have hlast := congrArg List.getLast? hw
        simp at hlast
    rw [List.cons_append, List.cons_append, universalNewlines, ← List.cons_append, ih h.tail,
      List.cons_append]
    rintro z hz
    exact hx x (by rw [(List.cons.inj hz).1])
  | case4 c x hc hr ih =>
    rw [List.cons_append, universalNewlines, ih h.tail, List.cons_append]
    · rintro z rfl _
      exact hr rfl
    · exact hr

theorem universalNewlines_cons_ne_nil (c : Char) (x : List Char) : universalNewlines (c :: x) ≠ [] := by
  unfold universalNewlines
  split <;> simp_all

theorem universalNewlines_endsIn {x : List Char} (h : EndsIn '\n' x) :
    EndsIn '\n' (universalNewlines x) := by
  fun_induction universalNewlines x with
  | case1 => exact EndsIn.nil '\n'
  | case2 x ih => exact (ih h.tail.tail).cons fun _ => rfl
  | case3 x _ ih => exact (ih h.tail).cons fun _ => rfl
  | case4 c x _ _ ih =>
    refine (ih h.tail).cons fun hnil => ?_
    cases x with
    | nil =>
      rcases h with h | ⟨w, hw⟩
      · cases h
      · have hlast := congrArg List.getLast? hw
        simpa using hlast
    | cons d x => exact absurd hnil (universalNewlines_cons_ne_nil d x)

abbrev Files : Type := String → Option String

/-- What a call may have done to the file it names. -/
def Files.Serves (w : Files) : (o : FileOp) → o.Resp → Files → Prop
  | .read path, .ok text, w' =>
    w' = w ∧ ∃ t, w path = some t ∧ text = String.ofList (universalNewlines t.toList)
  | .read path, .error (.fileNotFound _), w' => w' = w ∧ w path = none
  | .read _, .error (.other _), w' => w' = w
  | .write path text, .ok (), w' => w' path = some text
  | .write path _, .error (.unopened _), w' => w' path = w path
  | .write path _, .error (.torn _ left), w' => w' path = some left
  | .makedirs _, _, w' => w' = w

namespace Files

/-- A file system on which every call succeeds that can. -/
def respond (w : Files) : (o : FileOp) → o.Resp × Files
  | .makedirs _ => (.ok (), w)
  | .read path =>
    match w path with
    | some t => (.ok (String.ofList (universalNewlines t.toList)), w)
    | none => (.error (.fileNotFound ⟨.other, "[Errno 2] No such file or directory"⟩), w)
  | .write path text => (.ok (), Function.update w path (some text))

theorem serves_respond (w : Files) (o : FileOp) : w.Serves o (w.respond o).1 (w.respond o).2 := by
  cases o with
  | makedirs path => rfl
  | read path =>
    cases hw : w path with
    | none =>
      simp only [respond, hw]
      exact ⟨rfl, hw⟩
    | some t =>
      simp only [respond, hw]
      exact ⟨rfl, t, hw, rfl⟩
  | write path text => exact Function.update_self path (some text) w

end Files

/-! ## `code_edit` -/

abbrev FileM : Type → Type := Effect Exc FileOp FileOp.Resp Unit

def ReadFailure.exc : ReadFailure → Exc
  | .fileNotFound exc => exc
  | .other exc => exc

def makedirs (path : String) : FileM Unit := Effect.attempt (.makedirs path) id

def readFile (path : String) : FileM String :=
  Effect.attempt (.read path) fun r => r.mapError ReadFailure.exc

def writeText (path text : String) : FileM Unit :=
  Effect.attempt (.write path text) fun r => r.mapError WriteFailure.exc

/-- How writing a text may end for a file. -/
inductive Writes (path text : String) (before : Option String) :
    List (Event FileOp.Resp) → Except Exc Unit → Option String → Prop where
  | written : Writes path text before [⟨.write path text, .ok ()⟩] (.ok ()) (some text)
  | unopened (exc : Exc) :
      Writes path text before [⟨.write path text, .error (.unopened exc)⟩] (.error exc) before
  | torn (exc : Exc) (left : String) :
      Writes path text before [⟨.write path text, .error (.torn exc left)⟩] (.error exc) (some left)

section Calls
variable {path text : String} {w w' : Files} {tr : List (Event FileOp.Resp)} {s s' : Unit}

theorem writeText_writes {r : Except Exc Unit} (h : (writeText path text).Ends s tr r s')
    (hw : Threads Files.Serves w tr w') : Writes path text (w path) tr r (w' path) := by
  obtain ⟨x, rfl, rfl, _⟩ := Effect.ends_attempt h
  obtain ⟨w₁, hserves, hnil⟩ := hw.of_cons
  rw [hnil.of_nil]
  rcases x with (exc | ⟨exc, left⟩) | _
  · have hsame : w₁ path = w path := hserves
    rw [hsame]
    exact .unopened exc
  · have hleft : w₁ path = some left := hserves
    rw [hleft]
    exact .torn exc left
  · have htext : w₁ path = some text := hserves
    rw [htext]
    exact .written

theorem readFile_reads {r : Except Exc String} (h : (readFile path).Ends s tr r s')
    (hw : Threads Files.Serves w tr w') : w' = w ∧ ∃ x, tr = [⟨.read path, x⟩] ∧
      ∀ text, r = .ok text → ∃ t, w path = some t ∧ text = String.ofList (universalNewlines t.toList) := by
  obtain ⟨x, rfl, rfl, _⟩ := Effect.ends_attempt h
  obtain ⟨w₁, hserves, hnil⟩ := hw.of_cons
  rw [hnil.of_nil]
  rcases x with (exc | exc) | text
  · exact ⟨hserves.1, _, rfl, fun text htext => by cases htext⟩
  · exact ⟨hserves, _, rfl, fun text htext => by cases htext⟩
  · refine ⟨hserves.1, _, rfl, fun text' htext => ?_⟩
    cases htext
    exact hserves.2

end Calls

/-- `os.path.dirname`. -/
def dirname (path : String) : String :=
  let head := (path.toList.reverse.dropWhile (· ≠ '/')).reverse
  let trimmed := (head.reverse.dropWhile (· = '/')).reverse
  String.ofList (if trimmed = [] then head else trimmed)

def isBlank (s : String) : Bool := s == "" || strip s == ""

/-- `s.replace(old, new, 1)`. -/
def replaceFirst (old new s : String) : String :=
  if contains s old then
    String.ofList ((breakOn old.toList s.toList).1 ++
      (new.toList ++ (breakOn old.toList s.toList).2.drop old.length))
  else s

/-- What `code_edit` tries. -/
def tryEdit (filePath oldContent newContent : String) : FileM String :=
  if isBlank oldContent then do
    makedirs (dirname filePath)
    writeText filePath newContent
    pure ("Successfully created " ++ filePath)
  else do
    let content ← readFile filePath
    if !contains content oldContent then
      pure ("Error: old_content not found in " ++ filePath ++ ". File contains " ++
        toString content.length ++ " chars. First 200: " ++ take 200 content)
    else do
      writeText filePath (replaceFirst oldContent newContent content)
      pure ("Successfully edited " ++ filePath)

def codeEdit (filePath oldContent newContent : String) : FileM String :=
  tryCatch (tryEdit filePath oldContent newContent) fun e =>
    pure ("Error editing " ++ filePath ++ ": " ++ e.text)

end BulletFarm.Worker
