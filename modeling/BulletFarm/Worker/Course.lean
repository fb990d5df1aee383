import BulletFarm.Interaction.Monitor
import BulletFarm.Worker.Flush
import Mathlib.Algebra.Group.Nat.Defs

/-!
# The course of a run

What a run of `run_task` does to the outside, as a monitor sees it: cloning, checking out,
staging, committing and pushing, each after the one before has succeeded, and other commands of
git in between, whatever becomes of them; the agent, with its pauses; and nothing on GitHub
before the branch has been pushed.
-/

namespace BulletFarm.Worker

open Interaction Python

set_option autoImplicit false

/-! ## The monitor -/

/-- How far a run has come with its branch. -/
inductive Stage where
  | begun
  | cloned
  | onBranch
  | staged
  | committed
  | pushed
deriving DecidableEq, Repr

namespace Stage

def next : Stage → Stage
  | begun => cloned
  | cloned => onBranch
  | onBranch => staged
  | staged => committed
  | committed | pushed => pushed

/-- The commands that lead on from a stage when they succeed. -/
def steps (githubToken : String) (request : TaskRequest) : Stage → List (List String)
  | begun => [cloneCommand githubToken request]
  | cloned => [["git", "checkout", branchName request], ["git", "checkout", "-b", branchName request]]
  | onBranch => [["git", "add", "-A"]]
  | staged => [["git", "commit", "-m", commitMessage request],
      ["git", "commit", "-m", "chore: incomplete task analysis for " ++ request.taskID]]
  | committed => [["git", "push", "-u", "origin", branchName request]]
  | pushed => []

/-- The other commands of a stage. -/
def asides (request : TaskRequest) : Stage → List (List String)
  | cloned => [["git", "fetch", "origin", branchName request]]
  | onBranch => [["git", "config", "user.email", "agent@bulletfarm.io"],
      ["git", "config", "user.name", "BulletFarm Agent"],
      ["find", ".", "-type", "f", "-not", "-path", "./.git/*"]]
  | staged => [["git", "add", "-A"], ["git", "diff", "--cached", "--stat"]]
  | pushed => [["git", "diff", "--name-only", "HEAD~1"]]
  | _ => []

def cwd (request : TaskRequest) : Stage → Option String
  | begun => none
  | _ => some (workspaceOf request)

end Stage

/-- What the monitor keeps: the stage; the last percentage; how often the agent was started,
whether it may be started again without a pause, and what it failed with; the repository that
was asked for last, with its full name; and the pull request that was opened. -/
structure Course where
  stage : Stage
  percent : Int
  streams : Nat
  rested : Bool
  failure : Option Exc
  repo : Option (String × String)
  pull : Option Pull

namespace Course

def start : Course := ⟨.begun, 0, 0, true, none, none, none⟩

/-- The pull request the run goes by. -/
def url (request : TaskRequest) (m : Course) : String :=
  if request.prURL ≠ "" then request.prURL
  else
    match m.pull with
    | some pull => pull.url
    | none => ""

/-- A pull request may be opened, in this repository. -/
def Opening (request : TaskRequest) (m : Course) (repo : String) : Prop :=
  m.stage = .pushed ∧ request.prURL = "" ∧ m.pull = none ∧ m.repo = some (request.repository, repo)

def Allows (githubToken : String) (request : TaskRequest) (m : Course) : WorkerOp → Prop
  | .run cmd cwd => cwd = m.stage.cwd request ∧
      (cmd ∈ m.stage.steps githubToken request ∨ cmd ∈ m.stage.asides request)
  | .writeFile path _ => m.stage = .staged ∧ path = workspaceOf request ++ "/.bulletfarm-incomplete.md"
  | .streamEvents _ tools => m.stage = .onBranch ∧ m.streams < maxLLMRetries ∧ m.rested = true ∧
      tools = workspaceTools request
  | .invoke _ tools => m.stage = .onBranch ∧ m.failure = none ∧ tools = workspaceTools request
  | .asyncSleep seconds => m.stage = .onBranch ∧ m.rested = false ∧ m.streams < maxLLMRetries ∧
      seconds = 2 ^ (m.streams - 1) * 15 ∧ ∃ exc, m.failure = some exc ∧ isRateLimit exc = true
  | .progress taskID percent _ => taskID = request.taskID ∧ m.percent ≤ percent
  | .getRepo name => (m.stage = .onBranch ∨ m.stage = .pushed) ∧ name = request.repository ∨
      m.stage = .pushed ∧ ∃ number, parsePullURL (m.url request) = some (name, number)
  | .getLabels repo | .createLabel repo _ => m.Opening request repo
  | .createPull repo _ head _ _ => m.Opening request repo ∧ head = branchName request
  | .setLabels repo number _ => m.stage = .pushed ∧ m.repo = some (request.repository, repo) ∧
      ∃ pull, m.pull = some pull ∧ number = pull.number
  | .createComment repo number _ => m.stage = .pushed ∧
      ∃ name, m.repo = some (name, repo) ∧ parsePullURL (m.url request) = some (name, number)
  | .getPull _ _ | .indexDocument _ _ | .deleteByQuery _ _ => False
  | .now | .sleep _ | .randint _ _ | .indexExists _ | .createIndex _ _ | .search _ | .bulk _
  | .setOrder _ => True

def next (githubToken : String) (request : TaskRequest) (m : Course) : (o : WorkerOp) → o.Resp → Course
  | .run cmd _, .ok p =>
    if p.returncode = 0 ∧ cmd ∈ m.stage.steps githubToken request then { m with stage := m.stage.next }
    else m
  | .streamEvents _ _, stream =>
    { m with streams := m.streams + 1, rested := false, failure := stream.error }
  | .invoke _ _, .error exc => { m with failure := some exc }
  | .asyncSleep _, _ => { m with rested := true }
  | .progress _ percent _, _ => { m with percent := percent }
  | .getRepo name, .ok repo => { m with repo := some (name, repo.fullName) }
  | .createPull _ _ _ _ _, .ok pull => { m with pull := some pull }
  | _, _ => m

end Course

def course (githubToken : String) (request : TaskRequest) : Monitor WorkerOp WorkerOp.Resp Course :=
  ⟨Course.Allows githubToken request, Course.next githubToken request⟩

/-! ## One step -/

/-- Calls that the monitor does not look at. -/
def Unwatched : WorkerOp → Prop
  | .now | .sleep _ | .randint _ _ | .indexExists _ | .createIndex _ _ | .search _ | .bulk _
  | .setOrder _ => True
  | _ => False

theorem Looks.unwatched {o : WorkerOp} (h : Looks o) : Unwatched o := by
  cases o <;> trivial

theorem Stores.unwatched {o : WorkerOp} (h : Stores o) : Unwatched o := by
  cases o <;> trivial

/-- What is not about the stage, the progress or the repository. -/
structure Course.Frame (F : Course → Prop) : Prop where
  stage : ∀ {m} stage, F m → F { m with stage := stage }
  percent : ∀ {m} percent, F m → F { m with percent := percent }
  repo : ∀ {m} repo, F m → F { m with repo := repo }

/-- The run has come to a stage and has reported no more than this. -/
structure Course.At (F : Course → Prop) (stage : Stage) (percent : Int) (m : Course) : Prop where
  stage : m.stage = stage
  percent : m.percent ≤ percent
  frame : F m

/-- The agent is still to be started, for the first time. -/
def Course.Fresh (m : Course) : Prop := m.streams = 0 ∧ m.rested = true ∧ m.pull = none

def Course.Unopened (m : Course) : Prop := m.pull = none

theorem frame_fresh : Course.Frame Course.Fresh := ⟨fun _ h => h, fun _ h => h, fun _ h => h⟩

theorem frame_unopened : Course.Frame Course.Unopened := ⟨fun _ h => h, fun _ h => h, fun _ h => h⟩

section Blocks
variable {σ α : Type} {githubToken : String} {request : TaskRequest} {F P : Course → Prop}
  {stage : Stage} {percent : Int} {E : Exc → Course → Prop}

/-- The block is seen by the monitor of the run. -/
abbrev Keeps (githubToken : String) (request : TaskRequest) (P : Course → Prop) (m : WorkerM σ α)
    (R : α → Course → Prop) (E : Exc → Course → Prop) : Prop :=
  Effect.Obeys (course githubToken request) P m R E

theorem unwatched_keeps {m : WorkerM σ α} (hm : Effect.Calls Unwatched m) :
    Keeps githubToken request P m (fun _ => P) fun _ => P := by
  apply Effect.Obeys.keeps hm
  intro m o hP ho
  cases o <;> first | exact ⟨trivial, fun _ => hP⟩ | exact ho.elim

theorem report_keeps (hF : Course.Frame F) (notify : Bool) {percent' : Int} (message : String)
    (hle : percent ≤ percent') :
    Keeps githubToken request (Course.At F stage percent)
      (report notify request.taskID percent' message : WorkerM σ Unit)
      (fun _ => Course.At F stage percent') E := by
  apply Effect.Obeys.ite
  · intro _
    apply Effect.Obeys.attempt
    · exact fun m hm => ⟨rfl, Int.le_trans hm.percent hle⟩
    · exact fun m x a hm _ => ⟨hm.stage, Int.le_refl percent', hF.percent percent' hm.frame⟩
    · intro m x e _ he
      cases he
  · exact fun _ => Effect.Obeys.pure () fun m hm => ⟨hm.stage, Int.le_trans hm.percent hle, hm.frame⟩

theorem checked_eq_ok {cmd : List String} {r : Except Exc CompletedProcess} {p : CompletedProcess}
    (h : checked cmd r = .ok p) : r = .ok p ∧ p.returncode = 0 := by
  cases r with
  | error exc => cases h
  | ok q =>
    by_cases hzero : q.returncode = 0
    · have hq : checked cmd (.ok q) = .ok q := if_pos hzero
      rw [hq] at h
      cases h
      exact ⟨rfl, hzero⟩
    · have hq : checked cmd (.ok q) = .error (calledProcessError cmd q.returncode) := if_neg hzero
      rw [hq] at h
      cases h

/-- A command that has to succeed leads to the next stage. -/
theorem step_keeps (stage : Stage) (hF : Course.Frame F) {cmd : List String}
    (hcmd : cmd ∈ stage.steps githubToken request) :
    Keeps githubToken request (Course.At F stage percent)
      (runChecked cmd (stage.cwd request) : WorkerM σ CompletedProcess)
      (fun _ => Course.At F stage.next percent) fun _ _ => True := by
  apply Effect.Obeys.attempt
  · intro m hm
    have hstage := hm.stage
    subst hstage
    exact ⟨rfl, Or.inl hcmd⟩
  · intro m x p hm hx
    obtain ⟨rfl, hzero⟩ := checked_eq_ok hx
    have hstage := hm.stage
    subst hstage
    have hnext : (course githubToken request).next m (.run cmd (m.stage.cwd request)) (.ok p) =
        { m with stage := m.stage.next } := if_pos ⟨hzero, hcmd⟩
    rw [hnext]
    exact ⟨rfl, hm.percent, hF.stage _ hm.frame⟩
  · exact fun _ _ _ _ _ => trivial

/-- Any other command leaves the run where it is. -/
theorem aside_keeps (stage : Stage) {cmd : List String} {f : Except Exc CompletedProcess → Except Exc α}
    (hcmd : cmd ∈ stage.asides request) (hnot : cmd ∉ stage.steps githubToken request) :
    Keeps githubToken request (Course.At F stage percent)
      (Effect.attempt (WorkerOp.run cmd (stage.cwd request)) f : WorkerM σ α)
      (fun _ => Course.At F stage percent) fun _ => Course.At F stage percent := by
  have hnext : ∀ m x, Course.At F stage percent m → (course githubToken request).next m
      (.run cmd (stage.cwd request)) x = m := by
    intro m x hm
    have hstage := hm.stage
    subst hstage
    cases x with
    | error exc => rfl
    | ok p => exact if_neg fun h => hnot h.2
  apply Effect.Obeys.attempt
  · intro m hm
    have hstage := hm.stage
    subst hstage
    exact ⟨rfl, Or.inr hcmd⟩
  · intro m x a hm _
    rw [hnext m x hm]
    exact hm
  · intro m x e hm _
    rw [hnext m x hm]
    exact hm

end Blocks

/-! ## The agent -/

section Agent
variable {githubToken : String} {request : TaskRequest}

/-- The agent was started so many times, and may be started again or not. -/
structure Course.Tried (streams : Nat) (rested : Bool) (m : Course) : Prop where
  stage : m.stage = .onBranch
  percent : m.percent ≤ 45
  pull : m.pull = none
  streams : m.streams = streams
  rested : m.rested = rested

theorem addTaskMemory_unwatched (doc : Dict) : Effect.Calls Unwatched (addTaskMemory doc) :=
  addTaskMemory_calls trivial doc

theorem flush_unwatched : Effect.Calls Unwatched flush :=
  (flush_makes.mono fun _ h => h.unwatched).calls

theorem handleEvents_unwatched (stepCount : Nat) (events : List AgentEvent) :
    Effect.Calls Unwatched (handleEvents request stepCount events) := by
  apply handleEvents_moves (Effect.Calls.composes Unwatched)
  · intro s result e he
    cases he
  · exact fun stepCount => addTaskMemory_unwatched _
  · exact flush_unwatched

theorem handleEvents_returns (stepCount : Nat) (events : List AgentEvent) :
    Effect.Returns (handleEvents request stepCount events) := by
  induction events generalizing stepCount with
  | nil => exact Effect.Returns.pure ()
  | cons event rest ih =>
    apply Effect.Returns.bind _ fun _ => ih _
    cases event with
    | toolStart name elapsed sinceFlush =>
      apply Effect.Returns.bind Effect.Returns.get
      intro s
      apply Effect.Returns.ite _ (Effect.Returns.pure _)
      apply Effect.Returns.bind (addTaskMemory_returns _)
      intro _
      exact Effect.Returns.bind flush_returns fun _ => Effect.Returns.pure _
    | chatModelEnd output =>
      cases output with
      | none => exact Effect.Returns.pure _
      | some output => exact Effect.Returns.bind (Effect.Returns.modify _) fun _ => Effect.Returns.pure _
    | toolEnd => exact Effect.Returns.pure _
    | other kind => exact Effect.Returns.pure _

/-- An attempt at the agent is one more start; if it raises, the monitor knows with what. -/
theorem runAttempt_keeps (prompt : String) {streams : Nat} (hstreams : streams < maxLLMRetries) :
    Keeps githubToken request (Course.Tried streams true) (runAttempt request prompt)
      (fun _ => Course.Tried (streams + 1) false)
      fun exc m => m.Tried (streams + 1) false ∧ m.failure = some exc := by
  have hstarted : Keeps githubToken request (Course.Tried streams true)
      (ask (.streamEvents prompt (workspaceTools request)) : RunM AgentStream)
      (fun stream m => m.Tried (streams + 1) false ∧ m.failure = stream.error)
      fun exc m => m.Tried (streams + 1) false ∧ m.failure = some exc := by
    apply Effect.Obeys.attempt
    · exact fun m hm => ⟨hm.stage, by rw [hm.streams]; exact hstreams, hm.rested, rfl⟩
    · intro m stream a hm ha
      cases ha
      exact ⟨⟨hm.stage, hm.percent, hm.pull, by rw [← hm.streams]; rfl, rfl⟩, rfl⟩
    · intro m x e _ he
      cases he
  apply Effect.Obeys.bind hstarted
  intro stream
  apply Effect.Obeys.bind
  · exact Effect.Obeys.returns (handleEvents_returns 0 stream.events)
      ((unwatched_keeps (handleEvents_unwatched 0 stream.events)).mono (fun _ h => h) (fun _ _ h => h)
        fun _ _ _ => trivial)
  intro _
  cases hstream : stream.error with
  | some exc => exact Effect.Obeys.throw exc fun m hm => hm
  | none =>
    apply Effect.Obeys.bind Effect.Obeys.get
    intro s
    apply Effect.Obeys.ite
    · intro _
      apply Effect.Obeys.bind (R := fun _ => Course.Tried (streams + 1) false)
      · apply Effect.Obeys.attempt
        · exact fun m hm => ⟨hm.1.stage, hm.2, rfl⟩
        · intro m x messages hm hx
          cases x with
          | ok _ => exact hm.1
          | error exc => cases hx
        · intro m x exc hm hx
          cases x with
          | ok _ => cases hx
          | error _ =>
            cases hx
            exact ⟨⟨hm.1.stage, hm.1.percent, hm.1.pull, hm.1.streams, hm.1.rested⟩, rfl⟩
      · exact fun messages => Effect.Obeys.modify _
    · exact fun _ => Effect.Obeys.pure () fun m hm => hm.1

/-- The agent is started again only after a pause, which only a rate limit brings about. -/
theorem runAgent_keeps (notify : Bool) (prompt : String) (streams : Nat) {remaining : Nat}
    (h : streams + remaining = maxLLMRetries) :
    Keeps githubToken request (Course.Tried streams true) (runAgent notify request prompt remaining)
      (fun _ => Course.At Course.Unopened .onBranch 45) fun _ _ => True := by
  have htried : ∀ {streams : Nat} {rested : Bool} {m : Course}, m.Tried streams rested →
      m.At Course.Unopened .onBranch 45 := fun h => ⟨h.stage, h.percent, h.pull⟩
  induction remaining generalizing streams with
  | zero => exact Effect.Obeys.pure () fun m hm => htried hm
  | succ remaining ih =>
    apply Effect.Obeys.tryCatch
    · apply (runAttempt_keeps prompt (by omega)).mono (fun _ h => h) (fun _ _ h => htried h)
      exact fun _ _ h => h
    intro exc
    apply Effect.Obeys.ite
    · intro _
      exact (Effect.Obeys.modify (E := fun _ _ => True) _).mono (fun _ h => htried h.1)
        (fun _ _ h => h) fun _ _ h => h
    intro _
    apply Effect.Obeys.ite
    · intro ⟨hlimited, hattempt⟩
      have hbefore : maxLLMRetries - (remaining + 1) = streams := by omega
      rw [hbefore] at hattempt ⊢
      apply Effect.Obeys.bind (R := fun _ m => m.Tried (streams + 1) false ∧ m.failure = some exc)
      · refine Effect.Obeys.ite (fun _ => ?_) fun _ => Effect.Obeys.pure () fun m hm => hm
        apply Effect.Obeys.attempt
        · exact fun m hm => ⟨rfl, hm.1.percent⟩
        · intro m x a hm _
          exact ⟨⟨hm.1.stage, Int.le_refl 45, hm.1.pull, hm.1.streams, hm.1.rested⟩, hm.2⟩
        · intro m x e _ he
          cases he
      intro _
      apply Effect.Obeys.bind (R := fun _ => Course.Tried (streams + 1) true)
      · apply Effect.Obeys.attempt
        · intro m hm
          refine ⟨hm.1.stage, hm.1.rested, by rw [hm.1.streams]; omega, ?_, exc, hm.2, hlimited⟩
          have hattempt : streams = m.streams - 1 := by rw [hm.1.streams, Nat.add_sub_cancel]
          exact congrArg (fun attempt => 2 ^ attempt * 15) hattempt
        · intro m x a hm _
          exact ⟨hm.1.stage, hm.1.percent, hm.1.pull, hm.1.streams, rfl⟩
        · intro m x e _ he
          cases he
      · exact fun _ => ih (streams + 1) (by omega)
    · exact fun _ => Effect.Obeys.throw exc fun _ _ => trivial

end Agent

/-! ## GitHub -/

/-- Reading the labels of this repository and adding to them. -/
def LabelsOf (repo : String) : WorkerOp → Prop
  | .getLabels name | .createLabel name _ => name = repo
  | _ => False

theorem ensureEach_labels {σ : Type} (repo : String) (existing : List String) (labels : List Label) :
    Makes (LabelsOf repo) (ensureEach repo existing labels : WorkerM σ Unit) := by
  induction labels with
  | nil => exact Makes.pure ()
  | cons label rest ih =>
    apply Makes.bind _ fun _ => ih
    apply Makes.ite (Makes.pure ())
    have hown : LabelsOf repo (.createLabel repo label) := rfl
    apply Makes.tryCatch (Makes.attempt hown _)
    exact fun exc => Makes.ite (Makes.pure ()) (Makes.throw exc)

theorem ensureLabels_labels {σ : Type} (repo : String) (labels : List Label) :
    Makes (LabelsOf repo) (ensureLabels repo labels : WorkerM σ Unit) := by
  have hown : LabelsOf repo (.getLabels repo) := rfl
  exact Makes.bind (Makes.attempt hown _) fun _ => ensureEach_labels _ _ _

section GitHub
variable {σ : Type} {githubToken : String} {request : TaskRequest} {percent : Int}

/-- The branch is pushed, and the run goes by this URL. -/
structure Course.GoesBy (request : TaskRequest) (percent : Int) (url : String) (m : Course) : Prop where
  stage : m.stage = .pushed
  percent : m.percent ≤ percent
  url : m.url request = url

theorem createDraftPR_keeps (hurl : request.prURL = "") (base title body : String) :
    Keeps githubToken request (Course.At Course.Unopened .pushed percent)
      (createDraftPR request.repository (branchName request) base title body request.taskID
        request.agentRef : WorkerM σ String)
      (Course.GoesBy request percent) fun _ _ => True := by
  let opening (repo : Repo) (m : Course) : Prop :=
    m.At Course.Unopened .pushed percent ∧ m.repo = some (request.repository, repo.fullName)
  apply Effect.Obeys.bind (R := opening)
  · apply Effect.Obeys.attempt
    · exact fun m hm => Or.inl ⟨Or.inr hm.stage, rfl⟩
    · intro m x repo hm hx
      cases x with
      | ok found =>
        cases hx
        exact ⟨⟨hm.stage, hm.percent, hm.frame⟩, rfl⟩
      | error exc => cases hx
    · exact fun _ _ _ _ _ => trivial
  intro repo
  have hopening : ∀ {m : Course}, opening repo m → m.Opening request repo.fullName :=
    fun h => ⟨h.1.stage, hurl, h.1.frame, h.2⟩
  apply Effect.Obeys.bind (R := fun _ => opening repo)
  · have hlabels : Keeps githubToken request (opening repo)
        (ensureLabels repo.fullName (labelsToCreate request.taskID request.agentRef) : WorkerM σ Unit)
        (fun _ => opening repo) fun _ => opening repo := by
      apply Effect.Obeys.keeps (ensureLabels_labels _ _).calls
      intro m o hm ho
      cases o with
      | getLabels name =>
        obtain rfl : name = repo.fullName := ho
        exact ⟨hopening hm, fun _ => hm⟩
      | createLabel name label =>
        obtain rfl : name = repo.fullName := ho
        exact ⟨hopening hm, fun _ => hm⟩
      | _ => exact ho.elim
    exact hlabels.mono (fun _ h => h) (fun _ _ h => h) fun _ _ _ => trivial
  intro _
  apply Effect.Obeys.bind
    (R := fun pull m => m.stage = .pushed ∧ m.percent ≤ percent ∧ m.pull = some pull ∧
      m.repo = some (request.repository, repo.fullName))
  · apply Effect.Obeys.attempt
    · exact fun m hm => ⟨hopening hm, rfl⟩
    · intro m x pull hm hx
      cases x with
      | ok made =>
        cases hx
        exact ⟨hm.1.stage, hm.1.percent, rfl, hm.2⟩
      | error exc => cases hx
    · exact fun _ _ _ _ _ => trivial
  intro pull
  apply Effect.Obeys.bind (R := fun _ => Course.GoesBy request percent pull.url)
  · apply Effect.Obeys.attempt
    · exact fun m hm => ⟨hm.1, hm.2.2.2, pull, hm.2.2.1, rfl⟩
    · intro m x a hm _
      refine ⟨hm.1, hm.2.1, ?_⟩
      change (if request.prURL ≠ "" then _ else match m.pull with | some pull => pull.url | none => "") = _
      rw [if_neg (not_not.mpr hurl), hm.2.2.1]
    · exact fun _ _ _ _ _ => trivial
  · exact fun _ => Effect.Obeys.pure _ fun m hm => hm

theorem commentOnPR_keeps (url comment : String) :
    Keeps githubToken request (Course.GoesBy request percent url)
      (commentOnPR url comment : WorkerM σ Bool) (fun _ => Course.GoesBy request percent url)
      fun _ _ => True := by
  unfold commentOnPR
  split
  · exact Effect.Obeys.pure false fun m hm => hm
  · next repoName number hparse =>
    apply Effect.Obeys.tryCatch (F := fun _ => Course.GoesBy request percent url)
    · apply Effect.Obeys.bind
        (R := fun repo m => m.GoesBy request percent url ∧ m.repo = some (repoName, repo.fullName))
      · apply Effect.Obeys.attempt
        · exact fun m hm => Or.inr ⟨hm.stage, number, by rw [hm.url]; exact hparse⟩
        · intro m x repo hm hx
          cases x with
          | ok found =>
            cases hx
            exact ⟨⟨hm.stage, hm.percent, hm.url⟩, rfl⟩
          | error exc => cases hx
        · intro m x exc hm hx
          cases x with
          | ok found => cases hx
          | error _ => exact hm
      intro repo
      apply Effect.Obeys.bind (R := fun _ => Course.GoesBy request percent url)
      · apply Effect.Obeys.attempt
        · exact fun m hm => ⟨hm.1.stage, repoName, hm.2, by rw [hm.1.url]; exact hparse⟩
        · exact fun m x a hm _ => hm.1
        · exact fun m x exc hm _ => hm.1
      · exact fun _ => Effect.Obeys.pure true fun m hm => hm
    · exact fun _ => Effect.Obeys.pure false fun m hm => hm

theorem given_goesBy (hurl : request.prURL ≠ "") {m : Course}
    (h : m.At Course.Unopened .pushed percent) : m.GoesBy request percent request.prURL :=
  ⟨h.stage, h.percent, if_pos hurl⟩

theorem incompletePR_keeps (repoInfo : RepoInfo) (output : String) :
    Keeps githubToken request (Course.At Course.Unopened .pushed percent)
      (incompletePR request repoInfo output : WorkerM σ String)
      (Course.GoesBy request percent) fun _ _ => True := by
  apply Effect.Obeys.ite
  · exact fun hurl => Effect.Obeys.pure _ fun m hm => given_goesBy hurl hm
  · exact fun hurl => createDraftPR_keeps (not_not.mp hurl) _ _ _

theorem createOrUpdatePR_keeps (repoInfo : RepoInfo) (output : String) (files : List String) :
    Keeps githubToken request (Course.At Course.Unopened .pushed percent)
      (createOrUpdatePR request repoInfo output files)
      (fun _ m => ∃ url, m.GoesBy request percent url) fun _ _ => True := by
  apply Effect.Obeys.ite
  · intro hurl
    apply Effect.Obeys.bind (Effect.Obeys.modify _)
    intro _
    apply Effect.Obeys.bind (R := fun _ => Course.GoesBy request percent request.prURL)
    · exact (commentOnPR_keeps _ _).mono (fun _ => given_goesBy hurl) (fun _ _ h => h) fun _ _ h => h
    · exact fun _ => Effect.Obeys.pure () fun m hm => ⟨_, hm⟩
  · intro hurl
    apply Effect.Obeys.bind (createDraftPR_keeps (not_not.mp hurl) _ _ _)
    intro url
    exact (Effect.Obeys.modify _).mono (fun _ h => h) (fun _ _ h => ⟨url, h⟩) fun _ _ h => h

end GitHub

/-! ## The whole run -/

section Run
variable {githubToken : String} {request : TaskRequest} {notify : Bool}

theorem GoesBy.report {percent percent' : Int} {url : String} (message : String)
    (hle : percent ≤ percent') :
    Keeps githubToken request (Course.GoesBy request percent url)
      (report notify request.taskID percent' message : RunM Unit)
      (fun _ => Course.GoesBy request percent' url) fun _ _ => True := by
  have hframe : Course.Frame fun m => m.url request = url := ⟨fun _ h => h, fun _ h => h, fun _ h => h⟩
  apply (report_keeps hframe notify message hle).mono
  · exact fun m h => ⟨h.stage, h.percent, h.url⟩
  · exact fun _ m h => ⟨h.stage, h.percent, h.frame⟩
  · exact fun _ _ h => h

theorem unwatched_stays {α : Type} {P : Course → Prop} {m : RunM α} (hm : Effect.Calls Unwatched m) :
    Keeps githubToken request P m (fun _ => P) fun _ _ => True :=
  (unwatched_keeps hm).mono (fun _ h => h) (fun _ _ h => h) fun _ _ _ => trivial

theorem aside_stays (stage : Stage) {F : Course → Prop} {percent : Int} {cmd : List String}
    (hcmd : cmd ∈ stage.asides request) (hnot : cmd ∉ stage.steps githubToken request) :
    Keeps githubToken request (Course.At F stage percent)
      (runProcess cmd (stage.cwd request) : RunM CompletedProcess) (fun _ => Course.At F stage percent)
      fun _ _ => True :=
  (aside_keeps stage hcmd hnot).mono (fun _ h => h) (fun _ _ h => h) fun _ _ _ => trivial

theorem aside_checked (stage : Stage) {F : Course → Prop} {percent : Int} {cmd : List String}
    (hcmd : cmd ∈ stage.asides request) (hnot : cmd ∉ stage.steps githubToken request) :
    Keeps githubToken request (Course.At F stage percent)
      (runChecked cmd (stage.cwd request) : RunM CompletedProcess) (fun _ => Course.At F stage percent)
      fun _ _ => True :=
  (aside_keeps stage hcmd hnot).mono (fun _ h => h) (fun _ _ h => h) fun _ _ _ => trivial

theorem handleIncomplete_keeps (repoInfo : RepoInfo) (output : String) (uniqueTools : List String) :
    Keeps githubToken request (Course.At Course.Unopened .staged 70)
      (handleIncomplete notify request repoInfo output uniqueTools) (fun _ _ => True)
      fun _ _ => True := by
  apply Effect.Obeys.bind (report_keeps frame_unopened notify _ (by omega))
  intro _
  apply Effect.Obeys.bind (R := fun _ => Course.At Course.Unopened .staged 90)
  · apply Effect.Obeys.attempt
    · exact fun m hm => ⟨hm.stage, rfl⟩
    · exact fun m x a hm _ => hm
    · exact fun _ _ _ _ _ => trivial
  intro _
  apply Effect.Obeys.bind (aside_checked .staged (by simp [Stage.asides]) (by simp [Stage.steps]))
  intro _
  apply Effect.Obeys.bind (step_keeps .staged frame_unopened (by simp [Stage.steps]))
  intro _
  apply Effect.Obeys.bind (step_keeps .committed frame_unopened (by simp [Stage.steps]))
  intro _
  apply Effect.Obeys.bind (incompletePR_keeps _ _)
  intro prURL
  apply Effect.Obeys.bind (commentOnPR_keeps _ _)
  intro _
  apply Effect.Obeys.bind (unwatched_stays (addTaskMemory_unwatched _))
  intro _
  apply Effect.Obeys.bind (unwatched_stays flush_unwatched)
  exact fun _ => Effect.Obeys.pure _ fun _ _ => trivial

theorem filesModified_keeps :
    Keeps githubToken request (Course.At Course.Unopened .pushed 85)
      (filesModified request : RunM (List String)) (fun _ => Course.At Course.Unopened .pushed 85)
      fun _ _ => True := by
  apply Effect.Obeys.tryCatch
  · apply Effect.Obeys.bind (aside_keeps .pushed (by simp [Stage.asides]) (by simp [Stage.steps]))
    intro diffFiles
    apply Effect.Obeys.ite
    · exact fun _ => Effect.Obeys.pure _ fun _ hm => hm
    · exact fun _ => Effect.Obeys.pure _ fun _ hm => hm
  · exact fun _ => Effect.Obeys.pure _ fun _ hm => hm

theorem finishSucceeded_keeps (repoInfo : RepoInfo) (output : String) (uniqueTools : List String) :
    Keeps githubToken request (Course.At Course.Unopened .staged 70)
      (finishSucceeded notify request repoInfo output uniqueTools) (fun _ _ => True)
      fun _ _ => True := by
  apply Effect.Obeys.bind (report_keeps frame_unopened notify _ (by omega))
  intro _
  apply Effect.Obeys.bind (step_keeps .staged frame_unopened (by simp [Stage.steps]))
  intro _
  apply Effect.Obeys.bind (step_keeps .committed frame_unopened (by simp [Stage.steps]))
  intro _
  apply Effect.Obeys.bind (report_keeps frame_unopened notify _ (by omega))
  intro _
  apply Effect.Obeys.bind filesModified_keeps
  intro files
  apply Effect.Obeys.bind (createOrUpdatePR_keeps _ _ _)
  intro _
  have hreport : ∀ {percent percent' : Int} (message : String), percent ≤ percent' →
      Keeps githubToken request (fun m => ∃ url, m.GoesBy request percent url)
        (report notify request.taskID percent' message : RunM Unit)
        (fun _ m => ∃ url, m.GoesBy request percent' url) fun _ _ => True := by
    intro percent percent' message hle s tr r s' m ⟨url, hm⟩ hend
    obtain ⟨haccepts, hok, herror⟩ := GoesBy.report message hle hm hend
    exact ⟨haccepts, fun a ha => ⟨url, hok a ha⟩, herror⟩
  apply Effect.Obeys.bind (hreport _ (by omega))
  intro _
  apply Effect.Obeys.bind Effect.Obeys.get
  intro s
  apply Effect.Obeys.bind (unwatched_stays (addTaskMemory_unwatched _))
  intro _
  have hlast : Keeps githubToken request (fun m => ∃ url, m.GoesBy request 95 url) (do
      report notify request.taskID 98 "Flushing memory to Elasticsearch"
      let _ ← flush
      pure {
        taskID := request.taskID
        phase := .succeeded
        progress := 100
        message := take 500 output
        pullRequestURL := s.prURL } : RunM TaskStatus) (fun _ _ => True) fun _ _ => True := by
    apply Effect.Obeys.bind (hreport _ (by omega))
    intro _
    apply Effect.Obeys.bind (unwatched_stays flush_unwatched)
    exact fun _ => Effect.Obeys.pure _ fun _ _ => trivial
  apply Effect.Obeys.ite
  · intro _
    apply Effect.Obeys.bind (unwatched_stays (addSharedMemory_calls trivial _))
    exact fun _ => hlast
  · exact fun _ => hlast

theorem checkOut_keeps :
    Keeps githubToken request (Course.At Course.Fresh .cloned 10) (checkOut request : RunM Unit)
      (fun _ => Course.At Course.Fresh .onBranch 10) fun _ _ => True := by
  have hcheck : ∀ cmd ∈ Stage.cloned.steps githubToken request,
      Keeps githubToken request (Course.At Course.Fresh .cloned 10)
        (runChecked cmd (some (workspaceOf request)) >>= fun _ => pure () : RunM Unit)
        (fun _ => Course.At Course.Fresh .onBranch 10) fun _ _ => True := by
    intro cmd hcmd
    apply Effect.Obeys.bind (step_keeps .cloned frame_fresh hcmd)
    exact fun _ => Effect.Obeys.pure () fun _ hm => hm
  apply Effect.Obeys.ite
  · intro _
    apply Effect.Obeys.bind (aside_stays .cloned (by simp [Stage.asides]) (by simp [Stage.steps]))
    intro fetched
    apply Effect.Obeys.ite
    · exact fun _ => hcheck _ (by simp [Stage.steps])
    · exact fun _ => hcheck _ (by simp [Stage.steps])
  · exact fun _ => hcheck _ (by simp [Stage.steps])

theorem configure_keeps :
    Keeps githubToken request (Course.At Course.Fresh .onBranch 10) (configure request : RunM Unit)
      (fun _ => Course.At Course.Fresh .onBranch 10) fun _ _ => True := by
  apply Effect.Obeys.bind (aside_checked .onBranch (by simp [Stage.asides]) (by simp [Stage.steps]))
  intro _
  apply Effect.Obeys.bind (aside_checked .onBranch (by simp [Stage.asides]) (by simp [Stage.steps]))
  exact fun _ => Effect.Obeys.pure () fun _ hm => hm

theorem getRepoInfo_keeps {percent : Int} :
    Keeps githubToken request (Course.At Course.Fresh .onBranch percent)
      (getRepoInfo request.repository : RunM RepoInfo)
      (fun _ => Course.At Course.Fresh .onBranch percent) fun _ _ => True := by
  apply Effect.Obeys.bind (R := fun _ => Course.At Course.Fresh .onBranch percent)
  · apply Effect.Obeys.attempt
    · exact fun m hm => Or.inl ⟨Or.inl hm.stage, rfl⟩
    · intro m x repo hm hx
      cases x with
      | ok found => exact ⟨hm.stage, hm.percent, hm.frame⟩
      | error exc => cases hx
    · exact fun _ _ _ _ _ => trivial
  · exact fun _ => Effect.Obeys.pure _ fun _ hm => hm

theorem workOn_keeps :
    Keeps githubToken request (Course.At Course.Fresh .cloned 10) (workOn notify request)
      (fun _ _ => True) fun _ _ => True := by
  apply Effect.Obeys.bind checkOut_keeps
  intro _
  apply Effect.Obeys.bind configure_keeps
  intro _
  apply Effect.Obeys.bind (report_keeps frame_fresh notify _ (by omega))
  intro _
  apply Effect.Obeys.bind getRepoInfo_keeps
  intro repoInfo
  apply Effect.Obeys.bind (unwatched_stays ((getTaskHistory_makes _ _).mono fun _ h => h.unwatched).calls)
  intro _
  apply Effect.Obeys.bind (unwatched_stays ((gatherMemory_makes _).mono fun _ h => h.unwatched).calls)
  intro context
  apply Effect.Obeys.bind (aside_stays .onBranch (by simp [Stage.asides]) (by simp [Stage.steps]))
  intro listing
  apply Effect.Obeys.bind (report_keeps frame_fresh notify _ (by omega))
  intro _
  apply Effect.Obeys.bind (report_keeps frame_fresh notify _ (by omega))
  intro _
  apply Effect.Obeys.bind (R := fun _ => Course.At Course.Unopened .onBranch 45)
  · apply (runAgent_keeps notify _ 0 (by rfl)).mono _ (fun _ _ h => h) fun _ _ h => h
    exact fun m hm => ⟨hm.stage, by have := hm.percent; omega, hm.frame.2.2, hm.frame.1, hm.frame.2.1⟩
  intro _
  apply Effect.Obeys.bind Effect.Obeys.get
  intro s
  apply Effect.Obeys.bind (report_keeps frame_unopened notify _ (by omega))
  intro _
  apply Effect.Obeys.bind (step_keeps .onBranch frame_unopened (by simp [Stage.steps]))
  intro _
  apply Effect.Obeys.bind (aside_stays .staged (by simp [Stage.asides]) (by simp [Stage.steps]))
  intro diffResult
  apply Effect.Obeys.bind (unwatched_stays (Makes.ask (o := .setOrder _) trivial).calls)
  intro uniqueTools
  apply Effect.Obeys.ite
  · exact fun _ => handleIncomplete_keeps _ _ _
  · exact fun _ => finishSucceeded_keeps _ _ _

theorem attemptTask_keeps :
    Keeps githubToken request (Course.At Course.Fresh .begun 0) (attemptTask githubToken notify request)
      (fun _ _ => True) fun _ _ => True := by
  apply Effect.Obeys.bind (report_keeps frame_fresh notify _ (by omega))
  intro _
  apply Effect.Obeys.bind (step_keeps .begun frame_fresh (by simp [Stage.steps]))
  exact fun _ => workOn_keeps

theorem handleFailure_unwatched (exc : Exc) : Effect.Calls Unwatched (handleFailure request exc) := by
  have hcomposes : Effect.Composes fun (_ : RunState) (tr : List (Event WorkerOp.Resp))
      (_ : RunState) => ∀ e ∈ tr, Unwatched e.1 := Effect.Calls.composes _
  apply Effect.Moves.bind hcomposes
  · apply Effect.Moves.tryCatch hcomposes
    · apply Effect.Moves.bind hcomposes (addTaskMemory_unwatched _)
      intro _
      exact Effect.Moves.bind hcomposes flush_unwatched fun _ => Effect.Moves.pure hcomposes ()
    · exact fun _ => Effect.Moves.pure hcomposes ()
  · intro _
    exact Effect.Moves.bind hcomposes (Effect.Moves.get hcomposes) fun _ => Effect.Moves.pure hcomposes _

/-- Whatever fails, a run keeps to its course. -/
theorem runTask_keeps_course {tr : List (Event WorkerOp.Resp)} {r : Except Exc TaskStatus × RunState}
    (h : (runTask githubToken notify request).Runs tr r) :
    (course githubToken request).Accepts .start tr := by
  obtain ⟨startTime, rest, rfl, hrun⟩ := Program.runs_call.mp h
  have hbuffered : Keeps githubToken request (Course.At Course.Fresh .begun 0)
      (runBuffered githubToken notify request) (fun _ _ => True) fun _ _ => True :=
    Effect.Obeys.tryCatch attemptTask_keeps fun exc => (unwatched_keeps (handleFailure_unwatched exc)).mono
      (fun _ h => h) (fun _ _ h => h) fun _ _ h => h
  obtain ⟨result, s⟩ := r
  exact ⟨trivial, (hbuffered ⟨rfl, Int.le_refl 0, rfl, rfl, rfl⟩ hrun).1⟩

end Run

/-! ## A run -/

/-- The first start of the agent is rate-limited; nothing else fails. -/
def limitedOnce (streams : Nat) : (o : WorkerOp) → o.Resp × Nat
  | .streamEvents _ _ =>
    if streams = 0 then (⟨[], some ⟨.other, "Error 429"⟩⟩, 1) else (demoStream 0, streams + 1)
  | o => (demoAnswers 0 o, streams)

def limitedRun : List (Event WorkerOp.Resp) × (Except Exc TaskStatus × RunState) × Nat :=
  play limitedOnce (runTask "token" true demoRequest) 0

/-- The agent is started again, and the pull request opened. -/
theorem runTask_keeps_course_demo :
    (course "token" demoRequest).Accepts .start limitedRun.1 ∧
      ((course "token" demoRequest).after .start limitedRun.1).streams = 2 ∧
      ((course "token" demoRequest).after .start limitedRun.1).pull ≠ none :=
  ⟨runTask_keeps_course (runs_play _ _ _), by decide +kernel, by decide +kernel⟩

end BulletFarm.Worker
