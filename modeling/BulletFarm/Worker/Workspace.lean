import BulletFarm.Git.Repository
import BulletFarm.Worker.Types
import BulletFarm.Worker.Python

/-!
# The workspace of a run

The processes and files of a run act on a clone of a repository. What the agent makes
of the clone is left open.
-/

namespace BulletFarm.Worker

open Interaction Python

set_option autoImplicit false

def diffStat : List String := ["git", "diff", "--cached", "--stat"]

def gitCommand : List String → Git.Command String
  | "git" :: "clone" :: _ => .clone
  | ["git", "fetch", "origin", branch] => .fetch branch
  | ["git", "checkout", branch] => .checkout branch
  | ["git", "checkout", "-b", branch] => .create branch
  | ["git", "add", "-A"] => .add
  | "git" :: "commit" :: _ => .commit
  | ["git", "push", "-u", "origin", branch] => .push branch
  | _ => .other

abbrev Place (Path Blob : Type) : Type := Git.Repository String Path Blob

/-- GitHub does what it is asked. -/
def Granted : Event WorkerOp.Resp → Prop
  | ⟨.getRepo _, r⟩ => ∃ repo, r = .ok repo
  | ⟨.getLabels _, r⟩ => ∃ labels, r = .ok labels
  | ⟨.createLabel _ _, r⟩ => r = .ok ()
  | ⟨.createPull _ _ _ _ _, r⟩ => ∃ pull, r = .ok pull
  | ⟨.setLabels _ _ _, r⟩ => r = .ok ()
  | ⟨.getPull _ _, r⟩ => ∃ pull, r = .ok pull
  | ⟨.createComment _ _ _, r⟩ => r = .ok ()
  | _ => True

/-- Calls that do not touch the repository. -/
def Aside : WorkerOp → Prop
  | .run _ _ | .writeFile _ _ | .streamEvents _ _ | .invoke _ _ => False
  | _ => True

/-- The rules of the clone, and where the file of a name is in it. -/
structure Site (Path Blob : Type) extends Git.Rules Path Blob String where
  locate : String → Path

namespace Site
variable {Path Blob : Type} (site : Site Path Blob)

/-- What a process may have done to the repository. -/
def Processes (w : Place Path Blob) (cmd : List String) (r : Except Exc CompletedProcess)
    (w' : Place Path Blob) : Prop :=
  match r with
  | .error _ => w.Does site.toRules (gitCommand cmd) false w'
  | .ok p => ∃ success, (success = true ↔ p.returncode = 0) ∧
    w.Does site.toRules (gitCommand cmd) success w' ∧
    (cmd = diffStat → (strip p.stdout = "" ↔ ¬ w.clone.Staged))

/-- What a call may have done to the repository. -/
def Serves (w : Place Path Blob) : (o : WorkerOp) → o.Resp → Place Path Blob → Prop
  | .run cmd _, r, w' => site.Processes w cmd r w'
  | .writeFile path text, .ok _, w' =>
    ∃ work, site.write w.clone.work (site.locate path) text = some work ∧
      w' = { w with clone := { w.clone with work := work } }
  | .writeFile _ _, .error _, w' | .streamEvents _ _, _, w' | .invoke _ _, _, w' =>
    w'.main = w.main ∧ w'.remote = w.remote
  | _, _, w' => w' = w

/-- Staging and pushing succeed, and so does committing what is staged; a file that can be
written is, and GitHub does what it is asked. -/
def Obliges (w : Place Path Blob) : (o : WorkerOp) → o.Resp → Prop
  | .run cmd _, r =>
    match gitCommand cmd with
    | .add | .push _ => ∃ p, r = .ok p ∧ p.returncode = 0
    | .commit => ∃ p, r = .ok p ∧ (w.clone.Staged → p.returncode = 0)
    | .other => cmd = diffStat → ∃ p, r = .ok p
    | _ => True
  | .writeFile path text, r =>
    (site.write w.clone.work (site.locate path) text).isSome → r = .ok ()
  | o, r => Granted ⟨o, r⟩

/-- A call that is served as it should be. -/
def Works (w : Place Path Blob) (o : WorkerOp) (r : o.Resp) (w' : Place Path Blob) : Prop :=
  site.Serves w o r w' ∧ site.Obliges w o r

section Calls
variable {site} {w w' : Place Path Blob} {tr : List (Event WorkerOp.Resp)}

theorem Serves.aside {o : WorkerOp} {r : o.Resp} (ho : Aside o) (h : site.Serves w o r w') : w' = w := by
  cases o with
  | run _ _ | writeFile _ _ | streamEvents _ _ | invoke _ _ => exact ho.elim
  | _ => exact h

theorem serves_aside (htr : ∀ e ∈ tr, Aside e.1) (h : Threads site.Serves w tr w') : w' = w :=
  h.unchanged fun e he _ hserves => hserves.aside (htr e he)

theorem Works.granted (h : Threads site.Works w tr w') : ∀ e ∈ tr, Granted e := by
  induction h with
  | nil w =>
    intro e he
    cases he
  | @cons w w₁ w₂ o r tr hworks _ ih =>
    intro e he
    rcases List.mem_cons.mp he with rfl | he
    · cases o with
      | run _ _ | writeFile _ _ => trivial
      | _ => exact hworks.2
    · exact ih e he

theorem Works.threads (h : Threads site.Works w tr w') : Threads site.Serves w tr w' :=
  h.mono fun h => h.1

end Calls

/-! ## A site that works -/

section Respond
variable [DecidableEq (Git.Tree Path Blob)]

/-- What a command prints and does when nothing but the state of the repository stops it. -/
def runGit (w : Place Path Blob) (cmd : List String) : CompletedProcess × Place Path Blob :=
  match gitCommand cmd with
  | .clone =>
    match w.remote w.main with
    | some tip => (⟨0, ""⟩, { w with clone := .fresh tip })
    | none => (⟨128, ""⟩, w)
  | .fetch branch =>
    match w.remote branch with
    | some _ => (⟨0, ""⟩, w)
    | none => (⟨128, ""⟩, w)
  | .checkout branch =>
    match w.remote branch with
    | some tip => (⟨0, ""⟩, { w with clone := .fresh tip })
    | none => (⟨1, ""⟩, w)
  | .create _ => (⟨0, ""⟩, w)
  | .add => (⟨0, ""⟩, { w with clone := site.addAll w.clone })
  | .commit =>
    if w.clone.index = w.clone.head then (⟨1, ""⟩, w) else (⟨0, ""⟩, { w with clone := w.clone.commit })
  | .push branch =>
    (⟨0, ""⟩, { w with remote := Function.update w.remote branch (some w.clone.head) })
  | .other => (⟨0, if w.clone.index = w.clone.head then "" else " 1 file changed"⟩, w)

/-- Everything goes well, and the agent does and says what it is here given to. -/
def respond (agent : Git.Tree Path Blob → AgentStream × Git.Tree Path Blob) (w : Place Path Blob) :
    (o : WorkerOp) → o.Resp × Place Path Blob
  | .run cmd _ => (.ok (site.runGit w cmd).1, (site.runGit w cmd).2)
  | .writeFile path text =>
    match site.write w.clone.work (site.locate path) text with
    | some work => (.ok (), { w with clone := { w.clone with work := work } })
    | none => (.error (calledProcessError [] 1), w)
  | .streamEvents _ _ =>
    ((agent w.clone.work).1, { w with clone := { w.clone with work := (agent w.clone.work).2 } })
  | o => (o.benign, w)

theorem gitCommand_diffStat : gitCommand diffStat = .other := rfl

theorem runGit_processes (w : Place Path Blob) (cmd : List String) :
    site.Processes w cmd (.ok (site.runGit w cmd).1) (site.runGit w cmd).2 := by
  have hstat : gitCommand cmd ≠ .other → cmd = diffStat → ∀ p : Prop, p := by
    intro hother heq
    rw [heq] at hother
    exact absurd gitCommand_diffStat hother
  unfold Processes runGit
  cases hcmd : gitCommand cmd with
  | clone =>
    cases htip : w.remote w.main with
    | some tip => exact ⟨true, by simp, ⟨tip, htip, rfl⟩, fun heq => hstat (by simp [hcmd]) heq _⟩
    | none => exact ⟨false, by simp, ⟨rfl, rfl⟩, fun heq => hstat (by simp [hcmd]) heq _⟩
  | fetch branch =>
    dsimp only
    cases htip : w.remote branch with
    | some tip =>
      exact ⟨true, by simp, ⟨Option.isSome_of_eq_some htip, rfl⟩,
        fun heq => hstat (by simp [hcmd]) heq _⟩
    | none => exact ⟨false, by simp, rfl, fun heq => hstat (by simp [hcmd]) heq _⟩
  | checkout branch =>
    dsimp only
    cases htip : w.remote branch with
    | some tip => exact ⟨true, by simp, ⟨tip, htip, rfl⟩, fun heq => hstat (by simp [hcmd]) heq _⟩
    | none => exact ⟨false, by simp, ⟨rfl, rfl⟩, fun heq => hstat (by simp [hcmd]) heq _⟩
  | create branch => exact ⟨true, by simp, rfl, fun heq => hstat (by simp [hcmd]) heq _⟩
  | add => exact ⟨true, by simp, rfl, fun heq => hstat (by simp [hcmd]) heq _⟩
  | commit =>
    by_cases hsame : w.clone.index = w.clone.head
    · simp only [hsame, if_true]
      exact ⟨false, by simp, rfl, fun heq => hstat (by simp [hcmd]) heq _⟩
    · simp only [hsame, if_false]
      exact ⟨true, by simp, ⟨hsame, rfl⟩, fun heq => hstat (by simp [hcmd]) heq _⟩
  | push branch => exact ⟨true, by simp, rfl, fun heq => hstat (by simp [hcmd]) heq _⟩
  | other =>
    refine ⟨true, by simp, rfl, fun _ => ?_⟩
    by_cases hsame : w.clone.index = w.clone.head
    · simp only [hsame, if_true, Git.Clone.Staged]
      exact iff_of_true (by decide) fun h => h rfl
    · simp only [hsame, if_false, Git.Clone.Staged]
      exact iff_of_false (by decide) fun h => h hsame

theorem respond_serves (agent : Git.Tree Path Blob → AgentStream × Git.Tree Path Blob)
    (w : Place Path Blob) (o : WorkerOp) :
    site.Serves w o (site.respond agent w o).1 (site.respond agent w o).2 := by
  cases o with
  | run cmd cwd => exact site.runGit_processes w cmd
  | writeFile path text =>
    unfold Serves respond
    dsimp only
    cases hwrite : site.write w.clone.work (site.locate path) text with
    | some work => exact ⟨work, hwrite, rfl⟩
    | none => exact ⟨rfl, rfl⟩
  | streamEvents _ _ | invoke _ _ => exact ⟨rfl, rfl⟩
  | _ => rfl

theorem respond_obliges (agent : Git.Tree Path Blob → AgentStream × Git.Tree Path Blob)
    (w : Place Path Blob) (o : WorkerOp) : site.Obliges w o (site.respond agent w o).1 := by
  cases o with
  | run cmd cwd =>
    unfold Obliges respond
    dsimp only
    cases hcmd : gitCommand cmd with
    | add => exact ⟨_, rfl, by simp [runGit, hcmd]⟩
    | push branch => exact ⟨_, rfl, by simp [runGit, hcmd]⟩
    | commit =>
      refine ⟨_, rfl, fun hstaged => ?_⟩
      have hdiffer : ¬ w.clone.index = w.clone.head := hstaged
      simp [runGit, hcmd, hdiffer]
    | other => exact fun _ => ⟨_, rfl⟩
    | _ => trivial
  | writeFile path text =>
    unfold Obliges respond
    dsimp only
    cases hwrite : site.write w.clone.work (site.locate path) text with
    | some work => exact fun _ => rfl
    | none => simp
  | getRepo _ | getLabels _ | createPull _ _ _ _ _ | getPull _ _ => exact ⟨_, rfl⟩
  | createLabel _ _ | setLabels _ _ _ | createComment _ _ _ => rfl
  | _ => trivial

theorem works_play {α : Type} (agent : Git.Tree Path Blob → AgentStream × Git.Tree Path Blob)
    (p : Program WorkerOp WorkerOp.Resp α) (w : Place Path Blob) :
    Threads site.Works w (play (site.respond agent) p w).1 (play (site.respond agent) p w).2.2 :=
  threads_play _ (fun w o => ⟨site.respond_serves agent w o, site.respond_obliges agent w o⟩) p w

end Respond

end Site

end BulletFarm.Worker
