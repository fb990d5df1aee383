import Mathlib.Logic.Function.Basic

/-!
# A repository and a clone of it

A tree has a blob at some of its paths. A clone has what was checked out, what is
committed, what is staged, and the files. What staging leaves out, and what a write
makes of the files, is up to the rules of the place.
-/

namespace Git

set_option autoImplicit false

variable {Branch Path Blob Text : Type}

abbrev Tree (Path Blob : Type) : Type := Path → Option Blob

structure Clone (Path Blob : Type) where
  base : Tree Path Blob
  head : Tree Path Blob
  index : Tree Path Blob
  work : Tree Path Blob

namespace Clone

/-- Checked out, with nothing done yet. -/
def fresh (tip : Tree Path Blob) : Clone Path Blob := ⟨tip, tip, tip, tip⟩

def Staged (c : Clone Path Blob) : Prop := c.index ≠ c.head

def commit (c : Clone Path Blob) : Clone Path Blob := { c with head := c.index }

end Clone

/-- Which paths of the files are ignored, and what the files are once a text has been
written to a path; nothing can be written where something is in the way. -/
structure Rules (Path Blob Text : Type) where
  ignored : Tree Path Blob → Path → Bool
  write : Tree Path Blob → Path → Text → Option (Tree Path Blob)

namespace Rules
variable (rules : Rules Path Blob Text) (c : Clone Path Blob)

/-- `git add -A`: a path that is ignored is left out unless it is tracked. -/
def addAll : Clone Path Blob :=
  { c with index := fun p =>
      if (c.index p).isNone && rules.ignored c.work p then none else c.work p }

variable {rules c} {p : Path} {b : Blob}

variable (rules c) in
/-- A text can be written to the path, and staging everything then stages a change. -/
def Records (p : Path) (text : Text) : Prop :=
  ∃ work, rules.write c.work p text = some work ∧ (rules.addAll { c with work := work }).Staged

end Rules

/-! ## Commands -/

structure Repository (Branch Path Blob : Type) where
  main : Branch
  remote : Branch → Option (Tree Path Blob)
  clone : Clone Path Blob

inductive Command (Branch : Type) where
  | clone
  | fetch (branch : Branch)
  | checkout (branch : Branch)
  | create (branch : Branch)
  | add
  | commit
  | push (branch : Branch)
  | other

namespace Repository
variable [DecidableEq Branch] (rules : Rules Path Blob Text)

/-- What a command may have done to the repository, if it succeeded and if not. -/
def Does (w : Repository Branch Path Blob) :
    Command Branch → (success : Bool) → Repository Branch Path Blob → Prop
  | .clone, true, w' => ∃ tip, w.remote w.main = some tip ∧ w' = { w with clone := .fresh tip }
  | .fetch branch, true, w' => (w.remote branch).isSome ∧ w' = w
  | .checkout branch, true, w' =>
    ∃ tip, w.remote branch = some tip ∧ w' = { w with clone := .fresh tip }
  | .add, true, w' => w' = { w with clone := rules.addAll w.clone }
  | .commit, true, w' => w.clone.Staged ∧ w' = { w with clone := w.clone.commit }
  | .push branch, true, w' =>
    w' = { w with remote := Function.update w.remote branch (some w.clone.head) }
  -- the clone may be left in any state, but not what is elsewhere
  | .clone, false, w' | .checkout _, false, w' | .add, false, w' =>
    w'.main = w.main ∧ w'.remote = w.remote
  | .create _, _, w' | .other, _, w' | .fetch _, false, w' | .commit, false, w' | .push _, false, w' =>
    w' = w

end Repository

end Git
