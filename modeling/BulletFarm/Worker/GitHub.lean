import BulletFarm.Worker.Types

/-!
# The GitHub layer

The functions of `github_tools.py` that a task's run and its graduation use, over
the calls of the GitHub client. Logging is left out.
-/

namespace BulletFarm.Worker

open Interaction Python

set_option autoImplicit false

variable {σ : Type}

def labelPrefix : String := "bulletfarm"

abbrev getRepo (name : String) : WorkerM σ Repo := .attempt (WorkerOp.getRepo name) id

abbrev getLabels (repo : String) : WorkerM σ (List String) := .attempt (WorkerOp.getLabels repo) id

abbrev createLabel (repo : String) (label : Label) : WorkerM σ Unit :=
  .attempt (WorkerOp.createLabel repo label) id

abbrev createPull (repo base head title body : String) : WorkerM σ Pull :=
  .attempt (WorkerOp.createPull repo base head title body) id

abbrev setLabels (repo : String) (number : Nat) (labels : List String) : WorkerM σ Unit :=
  .attempt (WorkerOp.setLabels repo number labels) id

abbrev getPull (repo : String) (number : Nat) : WorkerM σ Pull :=
  .attempt (WorkerOp.getPull repo number) id

abbrev createComment (repo : String) (number : Nat) (comment : String) : WorkerM σ Unit :=
  .attempt (WorkerOp.createComment repo number comment) id

/-- The text after a literal beginning. -/
def dropLiteral : List Char → List Char → Option (List Char)
  | [], cs => some cs
  | _ :: _, [] => none
  | l :: ls, c :: cs => if l = c then dropLiteral ls cs else none

/-- The zeros of the scripts that have decimal digits; the other nine digits follow their zero. -/
def decimalZeros : List Nat :=
  [0x30, 0x660, 0x6f0, 0x7c0, 0x966, 0x9e6, 0xa66, 0xae6, 0xb66, 0xbe6, 0xc66, 0xce6, 0xd66, 0xde6,
    0xe50, 0xed0, 0xf20, 0x1040, 0x1090, 0x17e0, 0x1810, 0x1946, 0x19d0, 0x1a80, 0x1a90, 0x1b50,
    0x1bb0, 0x1c40, 0x1c50, 0xa620, 0xa8d0, 0xa900, 0xa9d0, 0xa9f0, 0xaa50, 0xabf0, 0xff10, 0x104a0,
    0x10d30, 0x10d40, 0x11066, 0x110f0, 0x11136, 0x111d0, 0x112f0, 0x11450, 0x114d0, 0x11650, 0x116c0,
    0x116d0, 0x116da, 0x11730, 0x118e0, 0x11950, 0x11bf0, 0x11c50, 0x11d50, 0x11da0, 0x11f50, 0x16130,
    0x16a60, 0x16ac0, 0x16b50, 0x16d70, 0x1ccf0, 0x1d7ce, 0x1d7d8, 0x1d7e2, 0x1d7ec, 0x1d7f6, 0x1e140,
    0x1e2f0, 0x1e4f0, 0x1e5f1, 0x1e950, 0x1fbf0]

/-- The value of a decimal digit, which `\d` matches and `int` reads. -/
def decimal (c : Char) : Option Nat :=
  (decimalZeros.find? fun first => first ≤ c.toNat ∧ c.toNat < first + 10).map (c.toNat - ·)

/-- Repository and number of a pull request's URL; whatever follows the number is ignored. -/
def parsePullURL (url : String) : Option (String × Nat) := do
  let cs ← dropLiteral "https://github.com/".toList url.toList
  let owner := cs.takeWhile (· ≠ '/')
  let cs ← dropLiteral ['/'] (cs.dropWhile (· ≠ '/'))
  let name := cs.takeWhile (· ≠ '/')
  let cs ← dropLiteral "/pull/".toList (cs.dropWhile (· ≠ '/'))
  let digits := (cs.map decimal).takeWhile Option.isSome
  if owner = [] ∨ name = [] ∨ digits = [] then none
  else
    some (String.ofList owner ++ "/" ++ String.ofList name,
      digits.foldl (fun n digit => 10 * n + digit.getD 0) 0)

structure RepoInfo where
  name : String
  defaultBranch : String
  description : String
deriving DecidableEq, Repr

def getRepoInfo (repoName : String) : WorkerM σ RepoInfo := do
  let repo ← getRepo repoName
  pure ⟨repo.fullName, repo.defaultBranch, repo.description.getD ""⟩

structure PRStatus where
  state : String
  merged : Bool
  draft : Bool
deriving DecidableEq, Repr

def getPRStatus (prURL : String) : WorkerM σ PRStatus :=
  match parsePullURL prURL with
  | none => pure ⟨"unknown", false, false⟩
  | some (repoName, number) =>
    tryCatch (do
      let repo ← getRepo repoName
      let pr ← getPull repo.fullName number
      pure ⟨if pr.merged then "merged" else pr.state, pr.merged, pr.draft⟩) fun _ =>
        pure ⟨"error", false, false⟩

def ensureLabel (repo : String) (existing : List String) (label : Label) : WorkerM σ Unit :=
  if label.name ∈ existing then pure ()
  else
    tryCatch (createLabel repo label) fun exc =>
      if exc.kind = .githubException then pure () else throw exc

def ensureEach (repo : String) (existing : List String) : List Label → WorkerM σ Unit
  | [] => pure ()
  | label :: rest => do
    ensureLabel repo existing label
    ensureEach repo existing rest

def ensureLabels (repo : String) (labels : List Label) : WorkerM σ Unit := do
  let existing ← getLabels repo
  ensureEach repo existing labels

def labelsToCreate (taskID agentRef : String) : List Label :=
  [⟨labelPrefix ++ "/agent", "0075ca", "Created by BulletFarm agent"⟩] ++
    (if taskID ≠ "" then [⟨labelPrefix ++ "/task:" ++ taskID, "e4e669", "Task: " ++ taskID⟩] else []) ++
    (if agentRef ≠ "" then [⟨labelPrefix ++ "/agent:" ++ agentRef, "7057ff", "Agent: " ++ agentRef⟩] else [])

/-- The URL of the new pull request. -/
def createDraftPR (repoName head base title body taskID agentRef : String) : WorkerM σ String := do
  let repo ← getRepo repoName
  let labels := labelsToCreate taskID agentRef
  ensureLabels repo.fullName labels
  let pr ← createPull repo.fullName base head title body
  setLabels repo.fullName pr.number (labels.map Label.name)
  pure pr.url

def commentOnPR (prURL comment : String) : WorkerM σ Bool :=
  match parsePullURL prURL with
  | none => pure false
  | some (repoName, number) =>
    tryCatch (do
      let repo ← getRepo repoName
      createComment repo.fullName number comment
      pure true) fun _ => pure false

example : parsePullURL "https://github.com/org/repo/pull/17/files" = some ("org/repo", 17) := by
  decide +kernel

end BulletFarm.Worker
