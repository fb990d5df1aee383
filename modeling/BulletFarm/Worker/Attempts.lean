import BulletFarm.Worker.NothingStaged
import Mathlib.Data.List.Chain

/-!
# The attempts at a task on its branch

Every attempt has a workspace of its own and finds on the branch what the attempts
before it have pushed. What an attempt does to the file with the analysis of an
incomplete attempt follows from the tree it has checked out.
-/

namespace BulletFarm.Worker

open Interaction Python

set_option autoImplicit false

variable {Path Blob : Type}

/-- The agent edits files, but not the one at `p`. -/
def Site.Edits (site : Site Path Blob) (p : Path) (w : Place Path Blob) (o : WorkerOp) (r : o.Resp)
    (w' : Place Path Blob) : Prop :=
  site.Serves w o r w' ∧
    match o with
    | .streamEvents _ _ | .invoke _ _ =>
      w'.clone.base = w.clone.base ∧ w'.clone.head = w.clone.head ∧
        w'.clone.index = w.clone.index ∧ w'.clone.work p = w.clone.work p
    | _ => True

/-- A run of the task from the repository it finds to the one it leaves. -/
structure Attempt (site : Site Path Blob) where
  request : TaskRequest
  before : Place Path Blob
  after : Place Path Blob
  status : TaskStatus
  runs : ∃ githubToken notify tr s', (runTask githubToken notify request).Runs tr (.ok status, s') ∧
    Threads (site.Edits (site.locate (markerFile request))) before tr after

/-! ## Calls that leave the repository alone -/

/-- Everything but the agent, the file with the analysis, and the commands of git that
change something. -/
def Idle : WorkerOp → Prop
  | .run cmd _ => gitCommand cmd = .other ∨
    ∃ branch, gitCommand cmd = .create branch ∨ gitCommand cmd = .fetch branch
  | .writeFile _ _ | .streamEvents _ _ | .invoke _ _ => False
  | _ => True

theorem Looks.idle {o : WorkerOp} (h : Looks o) : Idle o := by
  cases o <;> trivial

theorem OnGitHub.idle {o : WorkerOp} (h : OnGitHub o) : Idle o := by
  cases o <;> trivial

theorem Converses.idle {o : WorkerOp} (h : Converses o) : Idle o := h.onGitHub.idle

theorem Stores.idle {o : WorkerOp} (h : Stores o) : Idle o := by
  cases o <;> trivial

section Blocks
variable {site : Site Path Blob} {p : Path} {w w' : Place Path Blob} {P : Place Path Blob → Prop}
  {request : TaskRequest}

theorem Site.Edits.idle {o : WorkerOp} {r : o.Resp} (ho : Idle o) (h : site.Edits p w o r w') :
    w' = w := by
  obtain ⟨hserves, _⟩ := h
  cases o with
  | run cmd cwd =>
    have hdoes : ∀ success, w.Does site.toRules (gitCommand cmd) success w' → w' = w := by
      intro success hdoes
      rcases ho with hother | ⟨branch, hcreate | hfetch⟩
      · rw [hother] at hdoes
        exact hdoes
      · rw [hcreate] at hdoes
        exact hdoes
      · rw [hfetch] at hdoes
        cases success with
        | true => exact hdoes.2
        | false => exact hdoes
    cases r with
    | error exc => exact hdoes _ hserves
    | ok process =>
      obtain ⟨success, _, hdone, _⟩ := hserves
      exact hdoes success hdone
  | writeFile _ _ | streamEvents _ _ | invoke _ _ => exact ho.elim
  | _ => exact hserves

/-- A block of idle calls keeps whatever holds of the repository. -/
theorem idle_keeps {α : Type} {m : RunM α} (hm : Effect.Calls Idle m) :
    Effect.Triple (site.Edits p) P m fun _ => P := by
  refine Effect.Triple.keeps hm ?_
  intro w o r w' ho hedits hw
  rw [hedits.idle ho]
  exact hw

theorem Makes.keeps {α : Type} {m : RunM α} (hm : Makes Idle m) :
    Effect.Triple (site.Edits p) P m fun _ => P :=
  idle_keeps hm.calls

end Blocks

/-! ## One attempt -/

/-- What an attempt may check out: the main branch, and on a retry the branch of the task. -/
def Starts (request : TaskRequest) (before : Place Path Blob) (tip : Git.Tree Path Blob) : Prop :=
  before.remote before.main = some tip ∨
    request.isRetry = true ∧ before.remote (branchName request) = some tip

/-- The path is as it has been checked out, and nothing has been pushed yet. -/
structure Untouched (request : TaskRequest) (before : Place Path Blob) (p : Path)
    (w : Place Path Blob) : Prop where
  main : w.main = before.main
  remote : w.remote = before.remote
  start : Starts request before w.clone.base
  head : w.clone.head p = w.clone.base p
  index : w.clone.index p = w.clone.base p
  work : w.clone.work p = w.clone.base p

section Attempt
variable {site : Site Path Blob} {p : Path} {request : TaskRequest} {before w w' : Place Path Blob}

theorem Untouched.fresh {tip : Git.Tree Path Blob} (hmain : w.main = before.main)
    (hremote : w.remote = before.remote) (htip : Starts request before tip) :
    Untouched request before p { w with clone := .fresh tip } where
  main := hmain
  remote := hremote
  start := htip
  head := rfl
  index := rfl
  work := rfl

end Attempt

/-! ## The attempts at a task -/

namespace Attempt
variable {site : Site Path Blob} (a : Attempt site)

def marker : Path := site.locate (markerFile a.request)

/-- The file that an incomplete attempt has left on the branch. -/
def left : Option Blob :=
  if a.status.phase = .incomplete then
    (a.after.remote (branchName a.request)).bind fun tip => tip a.marker
  else none

/-- The tree has the file as one of these attempts has left it. -/
def Carries (earlier : List (Attempt site)) (tip : Git.Tree Path Blob) : Prop :=
  ∃ e ∈ earlier, ∃ b, e.left = some b ∧ tip a.marker = some b

end Attempt

end BulletFarm.Worker
