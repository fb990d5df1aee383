import BulletFarm.Interaction.Triple
import BulletFarm.Worker.Agent

/-!
# The calls a run of a task may make

Which calls the helpers of a run make, whatever they are answered, and that they
leave the local state of the run alone.
-/

namespace BulletFarm.Worker

open Interaction Python

set_option autoImplicit false

variable {σ α β : Type}

/-- The trace has only calls that `ok` allows, and the state is as it was. -/
def Only (ok : WorkerOp → Prop) (s : σ) (tr : List (Event WorkerOp.Resp)) (s' : σ) : Prop :=
  s' = s ∧ ∀ e ∈ tr, ok e.1

theorem Only.composes (ok : WorkerOp → Prop) : Effect.Composes (Only (σ := σ) ok) where
  refl s := ⟨rfl, fun e he => by cases he⟩
  trans h₁ h₂ := by
    refine ⟨h₂.1.trans h₁.1, fun e he => ?_⟩
    rcases List.mem_append.mp he with he | he
    · exact h₁.2 e he
    · exact h₂.2 e he

/-- However it ends, `m` makes only calls that `ok` allows and leaves the state alone. -/
def Makes (ok : WorkerOp → Prop) (m : WorkerM σ α) : Prop := Effect.Moves (Only ok) m

namespace Makes
variable {ok ok' : WorkerOp → Prop}

theorem attempt {o : WorkerOp} (ho : ok o) (f : o.Resp → Except Exc α) :
    Makes ok (Effect.attempt o f : WorkerM σ α) := by
  apply Effect.Moves.attempt
  intro s r
  refine ⟨rfl, fun e he => ?_⟩
  rw [List.mem_singleton.mp he]
  exact ho

theorem ask {o : WorkerOp} (ho : ok o) : Makes ok (ask o : WorkerM σ o.Resp) :=
  Makes.attempt ho .ok

theorem pure (a : α) : Makes ok (pure a : WorkerM σ α) := Effect.Moves.pure (Only.composes ok) a

theorem throw (exc : Exc) : Makes ok (throw exc : WorkerM σ α) :=
  Effect.Moves.throw (Only.composes ok) exc

theorem ofExcept (r : Except Exc α) : Makes ok (Effect.ofExcept r : WorkerM σ α) := by
  intro s tr r' s' h
  obtain ⟨rfl, _, rfl⟩ := Effect.ends_ofExcept h
  exact (Only.composes ok).refl s'

theorem get : Makes ok (get : WorkerM σ σ) := Effect.Moves.get (Only.composes ok)

theorem bind {m : WorkerM σ α} {f : α → WorkerM σ β} (hm : Makes ok m) (hf : ∀ a, Makes ok (f a)) :
    Makes ok (m >>= f) :=
  Effect.Moves.bind (Only.composes ok) hm hf

theorem ofExcept_bind {x : Except Exc α} {f : α → WorkerM σ β} (hf : ∀ a, x = .ok a → Makes ok (f a)) :
    Makes ok (Effect.ofExcept x >>= f) := by
  cases x with
  | ok a => exact hf a rfl
  | error exc => exact Makes.throw exc

theorem tryCatch {m : WorkerM σ α} {f : Exc → WorkerM σ α} (hm : Makes ok m)
    (hf : ∀ exc, Makes ok (f exc)) : Makes ok (tryCatch m f) :=
  Effect.Moves.tryCatch (Only.composes ok) hm hf

theorem ite {c : Prop} [Decidable c] {m m' : WorkerM σ α} (hm : Makes ok m) (hm' : Makes ok m') :
    Makes ok (if c then m else m') :=
  Effect.Moves.ite (fun _ => hm) fun _ => hm'

theorem mono {m : WorkerM σ α} (hm : Makes ok m) (h : ∀ o, ok o → ok' o) : Makes ok' m := by
  intro s tr r s' hend
  obtain ⟨hs, htr⟩ := hm s tr r s' hend
  exact ⟨hs, fun e he => h _ (htr e he)⟩

theorem calls {m : WorkerM σ α} (hm : Makes ok m) : Effect.Calls ok m :=
  fun s tr r s' h => (hm s tr r s' h).2

end Makes

/-! ## The store -/

/-- Checks for an index and its creation. -/
def Ensures : WorkerOp → Prop
  | .indexExists _ | .createIndex _ _ => True
  | _ => False

/-- What looking something up takes. -/
def Looks : WorkerOp → Prop
  | .indexExists _ | .createIndex _ _ | .search _ | .sleep _ | .randint _ _ => True
  | _ => False

section Store
variable {index : String} {mapping : Json.Value}

theorem ensureIndex_returns : Effect.Returns (ensureIndex index mapping : WorkerM σ Unit) :=
  Effect.Returns.tryCatch fun _ => Effect.Returns.pure ()

theorem ensureIndex_makes : Makes Ensures (ensureIndex index mapping : WorkerM σ Unit) := by
  apply Makes.tryCatch
  · apply Makes.bind
    · exact Makes.attempt trivial _
    · intro there
      apply Makes.ite
      · exact Makes.attempt trivial _
      · exact Makes.pure ()
  · exact fun _ => Makes.pure ()

theorem Ensures.looks {o : WorkerOp} (h : Ensures o) : Looks o := by
  cases o with
  | indexExists _ => trivial
  | createIndex _ _ => trivial
  | _ => exact h.elim

theorem ensureIndices_makes : Makes Ensures (ensureIndices : WorkerM σ Unit) :=
  Makes.bind ensureIndex_makes fun _ => ensureIndex_makes

theorem ensureIndices_returns : Effect.Returns (ensureIndices : WorkerM σ Unit) :=
  Effect.Returns.bind ensureIndex_returns fun _ => ensureIndex_returns

/-- What a bulk write takes. -/
def Stores : WorkerOp → Prop
  | .indexExists _ | .createIndex _ _ | .bulk _ => True
  | _ => False

theorem Ensures.stores {o : WorkerOp} (h : Ensures o) : Stores o := by
  cases o <;> trivial

theorem bulkWrite_makes (b : MemoryWriteBuffer) :
    Makes Stores (bulkWrite b : WorkerM σ BulkWriteResult) := by
  apply Makes.bind (ensureIndices_makes.mono fun _ => Ensures.stores)
  intro _
  apply Makes.ite (Makes.pure _)
  apply Makes.tryCatch
  · exact Makes.bind (Makes.attempt trivial _) fun _ => Makes.pure _
  · exact fun _ => Makes.pure _

theorem flush_makes : Makes Stores flush := Makes.bind Makes.get fun _ => bulkWrite_makes _

theorem searchIf_makes (enabled : Bool) (index : String) (query : Json.Value) (limit : Int) :
    Makes Looks (searchIf enabled index query limit : WorkerM σ (List Hit)) :=
  Makes.ite (Makes.attempt trivial _) (Makes.pure [])

theorem executeQuery_makes (taskQuery sharedQuery : Json.Value) (limit : Int) (task shared : Bool) :
    Makes Looks (executeQuery taskQuery sharedQuery limit task shared : WorkerM σ (List Found)) := by
  apply Makes.bind (ensureIndices_makes.mono fun _ => Ensures.looks)
  intro _
  apply Makes.bind (searchIf_makes task _ _ _)
  intro taskResults
  apply Makes.bind (searchIf_makes shared _ _ _)
  intro sharedResults
  apply Makes.ite
  · exact Makes.throw _
  · exact Makes.pure _

theorem unifiedSearch_makes (queryText : String) (skills : Option (List String)) (limit : Int)
    (task shared : Bool) :
    Makes Looks (unifiedSearch queryText skills limit task shared : WorkerM σ (List Found)) := by
  apply Makes.ite (Makes.pure _)
  apply Makes.tryCatch (executeQuery_makes _ _ _ _ _)
  intro exc
  apply Makes.ite (Makes.pure _)
  apply Makes.tryCatch
  · apply Makes.bind
    · exact Makes.bind (Makes.ask trivial) fun _ => Makes.pure _
    · intro delay
      exact Makes.bind (Makes.ask trivial) fun _ => executeQuery_makes _ _ _ _ _
  · intro _
    exact Makes.tryCatch (executeQuery_makes _ _ _ _ _) fun _ => Makes.pure _

theorem getTaskHistory_makes (agentRef : String) (limit : Int) :
    Makes Looks (getTaskHistory agentRef limit : WorkerM σ (List Dict)) := by
  apply Makes.tryCatch
  · apply Makes.bind (ensureIndex_makes.mono fun _ => Ensures.looks)
    intro _
    exact Makes.bind (Makes.attempt trivial _) fun hits => Makes.pure _
  · exact fun _ => Makes.pure _

end Store

/-! ## GitHub -/

def OnGitHub : WorkerOp → Prop
  | .getRepo _ | .getLabels _ | .createLabel _ _ | .createPull _ _ _ _ _ | .setLabels _ _ _
  | .getPull _ _ | .createComment _ _ _ => True
  | _ => False

/-- Looking at a repository or a pull request, and commenting. -/
def Converses : WorkerOp → Prop
  | .getRepo _ | .getPull _ _ | .createComment _ _ _ => True
  | _ => False

theorem Converses.onGitHub {o : WorkerOp} (h : Converses o) : OnGitHub o := by
  cases o with
  | getRepo _ => trivial
  | getPull _ _ => trivial
  | createComment _ _ _ => trivial
  | _ => exact h.elim

theorem getRepoInfo_makes (repoName : String) :
    Makes Converses (getRepoInfo repoName : WorkerM σ RepoInfo) :=
  Makes.bind (Makes.attempt trivial _) fun _ => Makes.pure _

/-- Reading the labels of a repository and adding to them. -/
def Labels : WorkerOp → Prop
  | .getLabels _ | .createLabel _ _ => True
  | _ => False

theorem Labels.onGitHub {o : WorkerOp} (h : Labels o) : OnGitHub o := by
  cases o with
  | getLabels _ => trivial
  | createLabel _ _ => trivial
  | _ => exact h.elim

theorem ensureEach_makes (repo : String) (existing : List String) (labels : List Label) :
    Makes Labels (ensureEach repo existing labels : WorkerM σ Unit) := by
  induction labels with
  | nil => exact Makes.pure ()
  | cons label rest ih =>
    apply Makes.bind _ fun _ => ih
    apply Makes.ite (Makes.pure ())
    apply Makes.tryCatch (Makes.attempt trivial _)
    exact fun exc => Makes.ite (Makes.pure ()) (Makes.throw exc)

theorem ensureLabels_makes (repo : String) (labels : List Label) :
    Makes Labels (ensureLabels repo labels : WorkerM σ Unit) :=
  Makes.bind (Makes.attempt trivial _) fun _ => ensureEach_makes _ _ _

theorem createDraftPR_makes (repoName head base title body taskID agentRef : String) :
    Makes OnGitHub (createDraftPR repoName head base title body taskID agentRef : WorkerM σ String) := by
  apply Makes.bind (Makes.attempt trivial _)
  intro repo
  apply Makes.bind ((ensureLabels_makes _ _).mono fun _ => Labels.onGitHub)
  intro _
  apply Makes.bind (Makes.attempt trivial _)
  intro pr
  exact Makes.bind (Makes.attempt trivial _) fun _ => Makes.pure _

theorem commentOnPR_makes (prURL comment : String) :
    Makes Converses (commentOnPR prURL comment : WorkerM σ Bool) := by
  unfold commentOnPR
  split
  · exact Makes.pure false
  · apply Makes.tryCatch
    · apply Makes.bind (Makes.attempt trivial _)
      intro repo
      exact Makes.bind (Makes.attempt trivial _) fun _ => Makes.pure true
    · exact fun _ => Makes.pure false

theorem commentOnPR_returns (prURL comment : String) :
    Effect.Returns (commentOnPR prURL comment : WorkerM σ Bool) := by
  unfold commentOnPR
  split
  · exact Effect.Returns.pure _
  · exact Effect.Returns.tryCatch fun _ => Effect.Returns.pure _

/-! ## A run -/

/-- Everything but the agent's stream and bulk writes. -/
def Quiet : WorkerOp → Prop
  | .streamEvents _ _ | .bulk _ => False
  | _ => True

theorem Looks.quiet {o : WorkerOp} (h : Looks o) : Quiet o := by
  cases o <;> trivial

theorem OnGitHub.quiet {o : WorkerOp} (h : OnGitHub o) : Quiet o := by
  cases o <;> trivial

/-- Processes, files and reports of the progress. -/
def Locally : WorkerOp → Prop
  | .run _ _ | .writeFile _ _ | .progress _ _ _ => True
  | _ => False

theorem report_returns (notify : Bool) (taskID : String) (percent : Int) (message : String) :
    Effect.Returns (report notify taskID percent message : WorkerM σ Unit) := by
  apply Effect.Returns.ite _ (Effect.Returns.pure ())
  intro s tr r s' h
  obtain ⟨x, _, hr, _⟩ := Effect.ends_attempt h
  exact ⟨x, hr⟩

/-- Processes and files. -/
def Executes : WorkerOp → Prop
  | .run _ _ | .writeFile _ _ => True
  | _ => False

theorem Executes.locally {o : WorkerOp} (h : Executes o) : Locally o := by
  cases o <;> trivial

theorem runProcess_executes (cmd : List String) (cwd : Option String) :
    Makes Executes (runProcess cmd cwd : WorkerM σ CompletedProcess) := Makes.attempt trivial _

theorem runChecked_executes (cmd : List String) (cwd : Option String) :
    Makes Executes (runChecked cmd cwd : WorkerM σ CompletedProcess) := Makes.attempt trivial _

theorem writeFile_executes (path content : String) :
    Makes Executes (writeFile path content : WorkerM σ Unit) := Makes.attempt trivial _

theorem checkOut_executes (request : TaskRequest) :
    Makes Executes (checkOut request : WorkerM σ Unit) := by
  have hcheck : ∀ cmd, Makes Executes (runChecked cmd (some (workspaceOf request)) >>= fun _ =>
      Pure.pure () : WorkerM σ Unit) :=
    fun cmd => Makes.bind (runChecked_executes _ _) fun _ => Makes.pure ()
  apply Makes.ite
  · apply Makes.bind (runProcess_executes _ _)
    exact fun fetched => Makes.ite (hcheck _) (hcheck _)
  · exact hcheck _

theorem configure_executes (request : TaskRequest) :
    Makes Executes (configure request : WorkerM σ Unit) := by
  apply Makes.bind (runChecked_executes _ _)
  intro _
  exact Makes.bind (runChecked_executes _ _) fun _ => Makes.pure ()

theorem filesModified_executes (request : TaskRequest) :
    Makes Executes (filesModified request : WorkerM σ (List String)) := by
  apply Makes.tryCatch
  · apply Makes.bind (runProcess_executes _ _)
    exact fun diff => Makes.ite (Makes.pure _) (Makes.pure _)
  · exact fun _ => Makes.pure _

section Run
variable {ok : WorkerOp → Prop} (hlocal : ∀ {o}, Locally o → ok o) (request : TaskRequest)

section Local
include hlocal

theorem report_makes (notify : Bool) (taskID : String) (percent : Int) (message : String) :
    Makes ok (report notify taskID percent message : WorkerM σ Unit) := by
  have hprogress : ok (.progress taskID percent message) := hlocal trivial
  exact Makes.ite (Makes.ask hprogress) (Makes.pure ())

theorem runProcess_makes (cmd : List String) (cwd : Option String) :
    Makes ok (runProcess cmd cwd : WorkerM σ CompletedProcess) :=
  (runProcess_executes cmd cwd).mono fun _ h => hlocal h.locally

theorem runChecked_makes (cmd : List String) (cwd : Option String) :
    Makes ok (runChecked cmd cwd : WorkerM σ CompletedProcess) :=
  (runChecked_executes cmd cwd).mono fun _ h => hlocal h.locally

theorem writeFile_makes (path content : String) :
    Makes ok (writeFile path content : WorkerM σ Unit) :=
  (writeFile_executes path content).mono fun _ h => hlocal h.locally

theorem checkOut_makes : Makes ok (checkOut request : WorkerM σ Unit) :=
  (checkOut_executes request).mono fun _ h => hlocal h.locally

theorem configure_makes : Makes ok (configure request : WorkerM σ Unit) :=
  (configure_executes request).mono fun _ h => hlocal h.locally

theorem filesModified_makes : Makes ok (filesModified request : WorkerM σ (List String)) :=
  (filesModified_executes request).mono fun _ h => hlocal h.locally

end Local

theorem gatherMemory_makes : Makes Looks (gatherMemory request : WorkerM σ String) := by
  apply Makes.ite
  · apply Makes.bind (unifiedSearch_makes _ _ _ _ _)
    exact fun results => Makes.ofExcept _
  · exact Makes.pure ""

theorem incompletePR_makes (repoInfo : RepoInfo) (output : String) :
    Makes OnGitHub (incompletePR request repoInfo output : WorkerM σ String) := by
  apply Makes.ite (Makes.pure _)
  exact createDraftPR_makes _ _ _ _ _ _ _

theorem createOrUpdatePR_calls {ok : WorkerOp → Prop} (hok : ∀ {o}, OnGitHub o → ok o)
    (repoInfo : RepoInfo) (output : String) (files : List String) :
    Effect.Calls ok (createOrUpdatePR request repoInfo output files) := by
  have hcomposes : Effect.Composes fun (_ : RunState) (tr : List (Event WorkerOp.Resp))
      (_ : RunState) => ∀ e ∈ tr, ok e.1 := Effect.Calls.composes ok
  have hmodify : ∀ url, Effect.Calls ok (modify fun s => { s with prURL := url } : RunM Unit) := by
    intro url
    apply Effect.Moves.modify
    intro s e he
    cases he
  apply Effect.Moves.ite
  · intro _
    apply Effect.Moves.bind hcomposes (hmodify _)
    intro _
    apply Effect.Moves.bind hcomposes
    · exact ((commentOnPR_makes _ _).mono fun _ h => hok h.onGitHub).calls
    · exact fun _ => Effect.Moves.pure hcomposes ()
  · intro _
    apply Effect.Moves.bind hcomposes _ hmodify
    exact ((createDraftPR_makes _ _ _ _ _ _ _).mono fun _ => hok).calls

end Run

theorem Locally.quiet {o : WorkerOp} (h : Locally o) : Quiet o := by
  cases o <;> trivial

theorem Converses.quiet {o : WorkerOp} (h : Converses o) : Quiet o := h.onGitHub.quiet

/-! ## Reports -/

/-- A report is about this task, and of no negative progress. -/
def Tells (taskID : String) : WorkerOp → Prop
  | .progress id percent _ => id = taskID ∧ 0 ≤ percent
  | _ => True

theorem report_tells {ok : WorkerOp → Prop} (notify : Bool) (taskID : String) {percent : Int}
    (message : String) (hok : ok (.progress taskID percent message)) (hpercent : 0 ≤ percent) :
    Makes (fun o => ok o ∧ Tells taskID o) (report notify taskID percent message : WorkerM σ Unit) :=
  Makes.ite (Makes.ask ⟨hok, rfl, hpercent⟩) (Makes.pure ())

theorem Executes.tells {taskID : String} {o : WorkerOp} (h : Executes o) : Tells taskID o := by
  cases o with
  | progress _ _ _ => exact h.elim
  | _ => trivial

theorem OnGitHub.tells {taskID : String} {o : WorkerOp} (h : OnGitHub o) : Tells taskID o := by
  cases o with
  | progress _ _ _ => exact h.elim
  | _ => trivial

theorem Looks.tells {taskID : String} {o : WorkerOp} (h : Looks o) : Tells taskID o := by
  cases o with
  | progress _ _ _ => exact h.elim
  | _ => trivial

theorem Stores.tells {taskID : String} {o : WorkerOp} (h : Stores o) : Tells taskID o := by
  cases o with
  | progress _ _ _ => exact h.elim
  | _ => trivial

/-! ## The agent -/

/-- The calls for an attempt at the agent, and between two attempts. -/
def Attends : WorkerOp → Prop
  | .streamEvents _ _ | .invoke _ _ | .asyncSleep _ | .progress _ _ _ => True
  | _ => False

/-- The calls between two attempts. -/
def Pauses : WorkerOp → Prop
  | .asyncSleep _ | .progress _ _ _ => True
  | _ => False

theorem Pauses.attends {o : WorkerOp} (h : Pauses o) : Attends o := by
  cases o <;> trivial

theorem Pauses.quiet {o : WorkerOp} (h : Pauses o) : Quiet o := by
  cases o <;> trivial

section Agent
variable {R : RunState → List (Event WorkerOp.Resp) → RunState → Prop} (hR : Effect.Composes R)
  {request : TaskRequest}
  (hattends : ∀ {α : Type} {m : RunM α},
    Makes (fun o => Attends o ∧ Tells request.taskID o) m → Effect.Moves R m)
  (hresult : ∀ s result, R s [] { s with result := result })
  (hcheckpoint : ∀ stepCount, Effect.Moves R (addTaskMemory (checkpointDoc request stepCount)))
  (hflush : Effect.Moves R flush)
include hR hresult hcheckpoint hflush

theorem handleEvent_moves (stepCount : Nat) (event : AgentEvent) :
    Effect.Moves R (handleEvent request stepCount event) := by
  have hpure : ∀ n : Nat, Effect.Moves R (pure n : RunM Nat) := Effect.Moves.pure hR
  cases event with
  | toolStart name elapsed sinceFlush =>
    apply Effect.Moves.bind hR (Effect.Moves.get hR)
    intro s
    apply Effect.Moves.ite _ fun _ => hpure _
    intro _
    apply Effect.Moves.bind hR (hcheckpoint _)
    intro _
    exact Effect.Moves.bind hR hflush fun _ => hpure _
  | chatModelEnd output =>
    cases output with
    | none => exact hpure _
    | some output =>
      exact Effect.Moves.bind hR (Effect.Moves.modify fun s => hresult s _) fun _ => hpure _
  | toolEnd => exact hpure _
  | other kind => exact hpure _

theorem handleEvents_moves (stepCount : Nat) (events : List AgentEvent) :
    Effect.Moves R (handleEvents request stepCount events) := by
  induction events generalizing stepCount with
  | nil => exact Effect.Moves.pure hR ()
  | cons event rest ih =>
    exact Effect.Moves.bind hR (handleEvent_moves hR hresult hcheckpoint hflush _ _) fun _ => ih _

include hattends

theorem runAttempt_moves (prompt : String) : Effect.Moves R (runAttempt request prompt) := by
  apply Effect.Moves.bind hR (hattends (Makes.ask (o := .streamEvents _ _) ⟨trivial, trivial⟩))
  intro stream
  apply Effect.Moves.bind hR (handleEvents_moves hR hresult hcheckpoint hflush _ _)
  intro _
  split
  · exact Effect.Moves.throw hR _
  · apply Effect.Moves.bind hR (Effect.Moves.get hR)
    intro s
    apply Effect.Moves.ite _ fun _ => Effect.Moves.pure hR ()
    intro _
    apply Effect.Moves.bind hR (hattends (Makes.attempt (o := .invoke _ _) ⟨trivial, trivial⟩ _))
    exact fun messages => Effect.Moves.modify fun s => hresult s _

omit hattends hcheckpoint hflush in
/-- What every attempt at the agent does, all attempts do. -/
theorem runAgent_attempts {prompt : String} (hattempt : Effect.Moves R (runAttempt request prompt))
    (hpauses : ∀ {α : Type} {m : RunM α},
      Makes (fun o => Pauses o ∧ Tells request.taskID o) m → Effect.Moves R m)
    (notify : Bool) (remaining : Nat) : Effect.Moves R (runAgent notify request prompt remaining) := by
  induction remaining with
  | zero => exact Effect.Moves.pure hR ()
  | succ remaining ih =>
    apply Effect.Moves.tryCatch hR hattempt
    intro exc
    apply Effect.Moves.ite
    · exact fun _ => Effect.Moves.modify fun s => hresult s _
    · intro _
      apply Effect.Moves.ite _ fun _ => Effect.Moves.throw hR exc
      intro _
      apply Effect.Moves.bind hR
      · exact hpauses (report_tells _ _ _ trivial (by omega))
      · intro _
        exact Effect.Moves.bind hR (hpauses (Makes.ask ⟨trivial, trivial⟩)) fun _ => ih

theorem runAgent_moves (notify : Bool) (prompt : String) (remaining : Nat) :
    Effect.Moves R (runAgent notify request prompt remaining) :=
  runAgent_attempts hR hresult (runAttempt_moves hR hattends hresult hcheckpoint hflush prompt)
    (fun hm => hattends (hm.mono fun _ h => ⟨h.1.attends, h.2⟩)) notify remaining

end Agent

/-! ## Up to an ending -/

/-- The calls of a run outside the agent and before an ending. -/
def Prepares : WorkerOp → Prop
  | .run _ _ | .writeFile _ _ | .progress _ _ _ | .indexExists _ | .createIndex _ _ | .search _
  | .sleep _ | .randint _ _ | .getRepo _ | .getPull _ _ | .createComment _ _ _ | .setOrder _ => True
  | _ => False

theorem Locally.prepares {o : WorkerOp} (h : Locally o) : Prepares o := by
  cases o <;> trivial

theorem Looks.prepares {o : WorkerOp} (h : Looks o) : Prepares o := by
  cases o <;> trivial

theorem Converses.prepares {o : WorkerOp} (h : Converses o) : Prepares o := by
  cases o <;> trivial

theorem Prepares.quiet {o : WorkerOp} (h : Prepares o) : Quiet o := by
  cases o <;> trivial

/-- Steps that move as `R` allows come before an end that satisfies `P`. -/
structure Leads (R : RunState → List (Event WorkerOp.Resp) → RunState → Prop)
    (P : RunState → List (Event WorkerOp.Resp) → Except Exc TaskStatus → RunState → Prop) : Prop where
  composes : Effect.Composes R
  raise : ∀ {s tr s' exc}, R s tr s' → P s tr (.error exc) s'
  front : ∀ {s₁ tr₁ s₂ tr₂ r s₃}, R s₁ tr₁ s₂ → P s₂ tr₂ r s₃ → P s₁ (tr₁ ++ tr₂) r s₃

namespace Leads
variable {R : RunState → List (Event WorkerOp.Resp) → RunState → Prop}
  {P : RunState → List (Event WorkerOp.Resp) → Except Exc TaskStatus → RunState → Prop}
  (hleads : Leads R P) {request : TaskRequest} {notify : Bool}
include hleads

theorem bind {m : RunM α} {f : α → RunM TaskStatus} (hm : Effect.Moves R m)
    (hf : ∀ a, Effect.Meets P (f a)) : Effect.Meets P (m >>= f) :=
  Effect.Meets.bind hleads.raise hleads.front hm hf

/-- What holds of both endings holds of a run up to either. -/
theorem workOn (hquiet : ∀ {α : Type} {m : RunM α},
      Makes (fun o => Prepares o ∧ Tells request.taskID o) m → Effect.Moves R m)
    (hagent : ∀ prompt remaining, Effect.Moves R (runAgent notify request prompt remaining))
    (hincomplete : ∀ repoInfo output uniqueTools,
      Effect.Meets P (handleIncomplete notify request repoInfo output uniqueTools))
    (hsucceeded : ∀ repoInfo output uniqueTools,
      Effect.Meets P (finishSucceeded notify request repoInfo output uniqueTools)) :
    Effect.Meets P (workOn notify request) := by
  have hexecutes : ∀ o, Executes o → Prepares o ∧ Tells request.taskID o :=
    fun _ h => ⟨h.locally.prepares, h.tells⟩
  apply hleads.bind (hquiet ((checkOut_executes _).mono hexecutes))
  intro _
  apply hleads.bind (hquiet ((configure_executes _).mono hexecutes))
  intro _
  apply hleads.bind (hquiet (report_tells _ _ _ trivial (by omega)))
  intro _
  apply hleads.bind (hquiet ((getRepoInfo_makes _).mono fun _ h => ⟨h.prepares, h.onGitHub.tells⟩))
  intro repoInfo
  apply hleads.bind (hquiet ((getTaskHistory_makes _ _).mono fun _ h => ⟨h.prepares, h.tells⟩))
  intro _
  apply hleads.bind (hquiet ((gatherMemory_makes _).mono fun _ h => ⟨h.prepares, h.tells⟩))
  intro context
  apply hleads.bind (hquiet ((runProcess_executes _ _).mono hexecutes))
  intro listing
  apply hleads.bind (hquiet (report_tells _ _ _ trivial (by omega)))
  intro _
  apply hleads.bind (hquiet (report_tells _ _ _ trivial (by omega)))
  intro _
  apply hleads.bind (hagent _ _)
  intro _
  apply hleads.bind (Effect.Moves.get hleads.composes)
  intro s
  apply hleads.bind (hquiet (report_tells _ _ _ trivial (by omega)))
  intro _
  apply hleads.bind (hquiet ((runChecked_executes _ _).mono hexecutes))
  intro _
  apply hleads.bind (hquiet ((runProcess_executes _ _).mono hexecutes))
  intro diffResult
  apply hleads.bind (hquiet (Makes.ask (o := .setOrder _) ⟨trivial, trivial⟩))
  intro uniqueTools
  apply Effect.Meets.ite
  · exact hincomplete _ _ _
  · exact hsucceeded _ _ _

theorem attemptTask (githubToken : String)
    (hquiet : ∀ {α : Type} {m : RunM α},
      Makes (fun o => Prepares o ∧ Tells request.taskID o) m → Effect.Moves R m)
    (hwork : Effect.Meets P (Worker.workOn notify request)) :
    Effect.Meets P (attemptTask githubToken notify request) := by
  apply hleads.bind (hquiet (report_tells _ _ _ trivial (by omega)))
  intro _
  apply hleads.bind (hquiet ((runChecked_executes _ _).mono fun _ h => ⟨h.locally.prepares, h.tells⟩))
  exact fun _ => hwork

end Leads

end BulletFarm.Worker
