import BulletFarm.Worker.PullRequests
import BulletFarm.Worker.Routes
import BulletFarm.Worker.Startup

/-!
# The status registry of a worker

`main.py` keeps the statuses of its tasks in a dictionary: the start of a task enters
one, the callback of the run moves it on, and the end of the run replaces it. A worker
is a process that works through one run of `run_task` and answers from the registry.
-/

namespace BulletFarm.Worker

open Interaction Python

set_option autoImplicit false

/-- `_task_statuses`. -/
abbrev Registry : Type := String → Option TaskStatus

namespace Registry

def empty : Registry := fun _ => none

def set (statuses : Registry) (taskID : String) (status : TaskStatus) : Registry :=
  fun id => if id = taskID then some status else statuses id

/-- What `lifespan` and `create_task` enter for a task they start. -/
def startTask (statuses : Registry) (request : TaskRequest) : Registry :=
  statuses.set request.taskID { taskID := request.taskID, phase := .running }

/-- `_update_progress`. -/
def updateProgress (statuses : Registry) (taskID : String) (progress : Int) (message : String) :
    Registry :=
  match statuses taskID with
  | none => statuses
  | some status => statuses.set taskID { status with
      progress := min progress 99
      message := if message ≠ "" then message else status.message }

def rateLimitMarkers : List String :=
  ["rate limit", "429", "too many requests", "quota exceeded", "rate_limit"]

def isRateLimitError (exc : Exc) : Bool :=
  rateLimitMarkers.any fun marker => contains (lower exc.text) marker

/-- The end of `_execute_task`: what has become of `run_task`. -/
def finishTask (statuses : Registry) (request : TaskRequest) (result : Except Exc TaskStatus) :
    Registry :=
  match result with
  | .ok status => statuses.set request.taskID status
  | .error exc => statuses.set request.taskID {
      taskID := request.taskID
      phase := .failed
      message := take 500 ("Internal error: " ++ exc.text)
      rateLimited := isRateLimitError exc }

/-- What a call of the run does to the registry: only the callback touches it. -/
def afterCall (statuses : Registry) : WorkerOp → Registry
  | .progress taskID percent message => statuses.updateProgress taskID percent message
  | _ => statuses

@[simp] theorem set_same (statuses : Registry) (taskID : String) (status : TaskStatus) :
    statuses.set taskID status taskID = some status := by
  simp [set]

theorem set_eq_some {statuses : Registry} {taskID id : String} {status status' : TaskStatus}
    (h : statuses.set taskID status id = some status') :
    id = taskID ∧ status' = status ∨ statuses id = some status' := by
  unfold set at h
  split at h
  · rename_i hid
    exact Or.inl ⟨hid, (Option.some.inj h).symm⟩
  · exact Or.inr h

/-- A call changes nothing but the progress and the message of its task. -/
theorem afterCall_eq_some {statuses : Registry} {o : WorkerOp} {id : String} {status : TaskStatus}
    (h : statuses.afterCall o id = some status) :
    statuses id = some status ∨ ∃ percent message old, o = .progress id percent message ∧
      statuses id = some old ∧ status = { old with
        progress := min percent 99
        message := if message ≠ "" then message else old.message } := by
  cases o with
  | progress taskID percent message =>
    unfold afterCall updateProgress at h
    cases hold : statuses taskID with
    | none =>
      simp only [hold] at h
      exact Or.inl h
    | some old =>
      simp only [hold] at h
      rcases set_eq_some h with ⟨rfl, rfl⟩ | h
      · exact Or.inr ⟨percent, message, old, rfl, hold, rfl⟩
      · exact Or.inl h
  | _ => exact Or.inl h

end Registry

/-- `get_task_status`. -/
def getTaskStatus (statuses : Registry) (taskID : String) : Except HTTPException TaskStatus :=
  match statuses taskID with
  | none => .error ⟨404, "Task " ++ taskID ++ " not found"⟩
  | some status => .ok status

theorem getTaskStatus_eq_ok {statuses : Registry} {taskID : String} {status : TaskStatus} :
    getTaskStatus statuses taskID = .ok status ↔ statuses taskID = some status := by
  unfold getTaskStatus
  cases statuses taskID with
  | none => simp
  | some other => simp

/-- The body of a reply with a status. -/
def TaskStatus.toJson (status : TaskStatus) : Json.Value :=
  .obj [("task_id", .str status.taskID), ("phase", .str status.phase.value),
    ("progress", .num (toString status.progress)), ("message", .str status.message),
    ("pull_request_url", .str status.pullRequestURL), ("rate_limited", .bool status.rateLimited),
    ("pr_state", .str status.prState), ("incomplete_reason", .str status.incompleteReason)]

/-! ## The phase of a result -/

/-- How `run_task` may have ended. -/
def Concluded (status : TaskStatus) : Prop :=
  status.phase ∈ [TaskPhase.succeeded, .incomplete, .failed]

/-- What `run_task` returns: all of the progress, unless it has failed, and nothing about the
state of the pull request. -/
structure Complete (status : TaskStatus) : Prop where
  ending : status.phase ∈ [TaskPhase.succeeded, .incomplete] ∧ status.progress = 100 ∨
    status.phase = .failed ∧ status.progress = 0
  prState : status.prState = ""

theorem Complete.concluded {status : TaskStatus} (h : Complete status) : Concluded status := by
  rcases h.ending with ⟨hphase, _⟩ | ⟨hphase, _⟩
  · exact List.mem_append_left [TaskPhase.failed] hphase
  · simp [Concluded, hphase]

theorem handleIncomplete_complete (notify : Bool) (request : TaskRequest) (repoInfo : RepoInfo)
    (output : String) (uniqueTools : List String) :
    Effect.Gives Complete (handleIncomplete notify request repoInfo output uniqueTools) := by
  unfold handleIncomplete
  iterate 9 (apply Effect.Gives.bind; intro _)
  apply Effect.Gives.pure
  constructor <;> simp

theorem finishSucceeded_complete (notify : Bool) (request : TaskRequest) (repoInfo : RepoInfo)
    (output : String) (uniqueTools : List String) :
    Effect.Gives Complete (finishSucceeded notify request repoInfo output uniqueTools) := by
  unfold finishSucceeded
  iterate 9 (apply Effect.Gives.bind; intro _)
  apply Effect.Gives.ite
  · iterate 3 (apply Effect.Gives.bind; intro _)
    apply Effect.Gives.pure
    constructor <;> simp
  · iterate 2 (apply Effect.Gives.bind; intro _)
    apply Effect.Gives.pure
    constructor <;> simp

theorem runTask_complete {githubToken : String} {notify : Bool} {request : TaskRequest}
    {tr : List (Event WorkerOp.Resp)} {status : TaskStatus} {s : RunState}
    (h : (runTask githubToken notify request).Runs tr (.ok status, s)) : Complete status := by
  obtain ⟨startTime, rest, rfl, hrun⟩ := Program.runs_call.mp h
  have hattempt : Effect.Gives Complete (attemptTask githubToken notify request) := by
    unfold attemptTask
    iterate 2 (apply Effect.Gives.bind; intro _)
    unfold workOn
    iterate 15 (apply Effect.Gives.bind; intro _)
    exact Effect.Gives.ite (handleIncomplete_complete _ _ _ _ _) (finishSucceeded_complete _ _ _ _ _)
  have hfailure : ∀ exc, Effect.Gives Complete (handleFailure request exc) := by
    intro exc
    unfold handleFailure
    iterate 2 (apply Effect.Gives.bind; intro _)
    apply Effect.Gives.pure
    constructor <;> simp
  exact Effect.Gives.tryCatch hattempt hfailure _ _ _ _ hrun

theorem runTask_concluded {githubToken : String} {notify : Bool} {request : TaskRequest}
    {tr : List (Event WorkerOp.Resp)} {status : TaskStatus} {s : RunState}
    (h : (runTask githubToken notify request).Runs tr (.ok status, s)) : Concluded status :=
  (runTask_complete h).concluded

/-! ## The calls of a run -/

/-- The calls of a run are allowed that are not its agent's. -/
structure Admits (request : TaskRequest) (ok : WorkerOp → Prop) : Prop where
  prepares : ∀ {o}, Prepares o → Tells request.taskID o → ok o
  onGitHub : ∀ {o}, OnGitHub o → ok o
  stores : ∀ {o}, Stores o → ok o
  now : ok .now

section Reports
variable {notify : Bool} {request : TaskRequest}

theorem admits_tells : Admits request (Tells request.taskID) where
  prepares _ h := h
  onGitHub := OnGitHub.tells
  stores := Stores.tells
  now := trivial

theorem runAgent_tells (prompt : String) (remaining : Nat) :
    Effect.Calls (Tells request.taskID) (runAgent notify request prompt remaining) := by
  apply runAgent_moves (Effect.Calls.composes (Tells request.taskID))
  · exact fun hm => (hm.mono fun _ h => h.2).calls
  · intro s result e he
    cases he
  · exact fun stepCount => addTaskMemory_calls trivial _
  · exact (flush_makes.mono fun _ => Stores.tells).calls

section Admitted
variable {ok : WorkerOp → Prop} (hok : Admits request ok)
include hok

theorem Admits.executes {o : WorkerOp} (h : Executes o) : ok o := hok.prepares h.locally.prepares h.tells

theorem report_calls (percent : Int) (message : String) (h : 0 ≤ percent) :
    Effect.Calls ok (report notify request.taskID percent message : RunM Unit) := by
  have hm : Makes ok (report notify request.taskID percent message : RunM Unit) :=
    Makes.ite (Makes.ask (hok.prepares trivial ⟨rfl, h⟩)) (Makes.pure ())
  exact hm.calls

theorem handleIncomplete_calls (repoInfo : RepoInfo) (output : String) (uniqueTools : List String) :
    Effect.Calls ok
      (handleIncomplete notify request repoInfo output uniqueTools) := by
  have hcomposes : Effect.Composes fun (_ : RunState) (tr : List (Event WorkerOp.Resp))
      (_ : RunState) => ∀ e ∈ tr, ok e.1 := Effect.Calls.composes _
  have hexecutes : ∀ {α : Type} {m : RunM α}, Makes Executes m →
      Effect.Calls ok m := fun hm => (hm.mono fun _ => hok.executes).calls
  apply Effect.Moves.bind hcomposes (report_calls hok _ _ (by omega))
  intro _
  apply Effect.Moves.bind hcomposes (hexecutes (writeFile_executes _ _))
  intro _
  apply Effect.Moves.bind hcomposes (hexecutes (runChecked_executes _ _))
  intro _
  apply Effect.Moves.bind hcomposes (hexecutes (runChecked_executes _ _))
  intro _
  apply Effect.Moves.bind hcomposes (hexecutes (runChecked_executes _ _))
  intro _
  apply Effect.Moves.bind hcomposes ((incompletePR_makes _ _ _).mono fun _ => hok.onGitHub).calls
  intro prURL
  apply Effect.Moves.bind hcomposes
  · exact ((commentOnPR_makes _ _).mono fun _ h => hok.onGitHub h.onGitHub).calls
  intro _
  apply Effect.Moves.bind hcomposes (addTaskMemory_calls hok.now _)
  intro _
  apply Effect.Moves.bind hcomposes (flush_makes.mono fun _ => hok.stores).calls
  exact fun _ => Effect.Moves.pure hcomposes _

theorem finishSucceeded_calls (repoInfo : RepoInfo) (output : String) (uniqueTools : List String) :
    Effect.Calls ok
      (finishSucceeded notify request repoInfo output uniqueTools) := by
  have hcomposes : Effect.Composes fun (_ : RunState) (tr : List (Event WorkerOp.Resp))
      (_ : RunState) => ∀ e ∈ tr, ok e.1 := Effect.Calls.composes _
  have hexecutes : ∀ {α : Type} {m : RunM α}, Makes Executes m →
      Effect.Calls ok m := fun hm => (hm.mono fun _ => hok.executes).calls
  apply Effect.Moves.bind hcomposes (report_calls hok _ _ (by omega))
  intro _
  apply Effect.Moves.bind hcomposes (hexecutes (runChecked_executes _ _))
  intro _
  apply Effect.Moves.bind hcomposes (hexecutes (runChecked_executes _ _))
  intro _
  apply Effect.Moves.bind hcomposes (report_calls hok _ _ (by omega))
  intro _
  apply Effect.Moves.bind hcomposes (hexecutes (filesModified_executes _))
  intro files
  apply Effect.Moves.bind hcomposes (createOrUpdatePR_calls _ hok.onGitHub _ _ _)
  intro _
  apply Effect.Moves.bind hcomposes (report_calls hok _ _ (by omega))
  intro _
  apply Effect.Moves.bind hcomposes (Effect.Moves.get hcomposes)
  intro s
  apply Effect.Moves.bind hcomposes (addTaskMemory_calls hok.now _)
  intro _
  have hlast : Effect.Calls ok (do
      report notify request.taskID 98 "Flushing memory to Elasticsearch"
      let _ ← flush
      pure {
        taskID := request.taskID
        phase := .succeeded
        progress := 100
        message := take 500 output
        pullRequestURL := s.prURL } : RunM TaskStatus) := by
    apply Effect.Moves.bind hcomposes (report_calls hok _ _ (by omega))
    intro _
    apply Effect.Moves.bind hcomposes (flush_makes.mono fun _ => hok.stores).calls
    exact fun _ => Effect.Moves.pure hcomposes _
  apply Effect.Moves.ite
  · intro _
    exact Effect.Moves.bind hcomposes (addSharedMemory_calls hok.now _) fun _ => hlast
  · exact fun _ => hlast

theorem handleFailure_calls (exc : Exc) :
    Effect.Calls ok (handleFailure request exc) := by
  have hcomposes : Effect.Composes fun (_ : RunState) (tr : List (Event WorkerOp.Resp))
      (_ : RunState) => ∀ e ∈ tr, ok e.1 := Effect.Calls.composes _
  have hrecord : Effect.Calls ok (recordFailure request exc) := by
    apply Effect.Moves.tryCatch hcomposes _ fun _ => Effect.Moves.pure hcomposes ()
    apply Effect.Moves.bind hcomposes (addTaskMemory_calls hok.now _)
    intro _
    apply Effect.Moves.bind hcomposes (flush_makes.mono fun _ => hok.stores).calls
    exact fun _ => Effect.Moves.pure hcomposes ()
  apply Effect.Moves.bind hcomposes hrecord
  intro _
  exact Effect.Moves.bind hcomposes (Effect.Moves.get hcomposes) fun _ => Effect.Moves.pure hcomposes _

/-- What is allowed of the agent is, with these, all that a run calls. -/
theorem runTask_calls {githubToken : String} {tr : List (Event WorkerOp.Resp)}
    {r : Except Exc TaskStatus} {s' : RunState}
    (hagent : ∀ prompt remaining, Effect.Calls ok (runAgent notify request prompt remaining))
    (h : (runTask githubToken notify request).Runs tr (r, s')) : ∀ e ∈ tr, ok e.1 := by
  obtain ⟨startTime, rest, rfl, hrun⟩ := Program.runs_call.mp h
  have hcomposes : Effect.Composes fun (_ : RunState) (tr : List (Event WorkerOp.Resp))
      (_ : RunState) => ∀ e ∈ tr, ok e.1 := Effect.Calls.composes _
  have hleads : Leads (fun _ tr _ => ∀ e ∈ tr, ok e.1) (fun _ tr _ _ => ∀ e ∈ tr, ok e.1) :=
    ⟨hcomposes, fun h => h, fun h₁ h₂ => List.forall_mem_append.mpr ⟨h₁, h₂⟩⟩
  have hattempt : Effect.Calls ok (attemptTask githubToken notify request) := by
    apply hleads.attemptTask githubToken fun hm => (hm.mono fun _ h => hok.prepares h.1 h.2).calls
    exact hleads.workOn (fun hm => (hm.mono fun _ h => hok.prepares h.1 h.2).calls) hagent
      (handleIncomplete_calls hok) (finishSucceeded_calls hok)
  refine List.forall_mem_cons.mpr ⟨hok.now, ?_⟩
  exact Effect.Moves.tryCatch hcomposes hattempt (handleFailure_calls hok) _ _ _ _ hrun

end Admitted

theorem runTask_tells {githubToken : String} {tr : List (Event WorkerOp.Resp)}
    {r : Except Exc TaskStatus} {s' : RunState}
    (h : (runTask githubToken notify request).Runs tr (r, s')) :
    ∀ e ∈ tr, Tells request.taskID e.1 :=
  runTask_calls admits_tells runAgent_tells h

end Reports

/-! ## The process -/

/-- A worker: its registry, the calls its run has made, and the run that is not over yet. -/
structure Process where
  statuses : Registry
  made : List (Event WorkerOp.Resp)
  running : Option (TaskRequest × Program WorkerOp WorkerOp.Resp (Except Exc TaskStatus × RunState))

namespace Process

/-- `lifespan`: the task of the payload is started, if there is one. -/
def boot (githubToken : String) : Option TaskRequest → Process
  | none => ⟨.empty, [], none⟩
  | some request => ⟨Registry.empty.startTask request, [], some (request, runTask githubToken true request)⟩

/-- One step of `_execute_task`, or what `finalize_task` does to the message of a status. -/
inductive Step : Process → Process → Prop where
  | call {p : Process} {request : TaskRequest} {o : WorkerOp}
      {next : o.Resp → Program WorkerOp WorkerOp.Resp (Except Exc TaskStatus × RunState)}
      (r : o.Resp) : p.running = some (request, .call o next) →
      Step p ⟨p.statuses.afterCall o, p.made ++ [⟨o, r⟩], some (request, next r)⟩
  | finish {p : Process} {request : TaskRequest} {result : Except Exc TaskStatus} {s : RunState} :
      p.running = some (request, .ret (result, s)) →
      Step p ⟨p.statuses.finishTask request result, p.made, none⟩
  | finalize {p : Process} {taskID : String} {status : TaskStatus} (message : String) :
      p.statuses taskID = some status → status.phase = .succeeded →
      Step p { p with statuses := p.statuses.set taskID { status with message := message } }

/-- The worker, started with this request, has come this far. -/
def Reached (githubToken : String) (request : Option TaskRequest) (p : Process) : Prop :=
  Relation.ReflTransGen Step (boot githubToken request) p

/-- Two statuses that differ in their message at most. -/
def SameButMessage (status status' : TaskStatus) : Prop :=
  ∃ message, status' = { status with message := message }

/-- The status of a run that is not over: no phase but Running, and no pull request. -/
structure Unfinished (status : TaskStatus) : Prop where
  phase : status.phase = .running
  url : status.pullRequestURL = ""

/-- The run is over, and this is what it left in the registry. -/
def Ended (githubToken : String) (request : TaskRequest) (p : Process) (status : TaskStatus) : Prop :=
  p.running = none ∧ ∃ result s, (runTask githubToken true request).Runs p.made (result, s) ∧
    ∃ left, Registry.empty.finishTask request result request.taskID = some left ∧
      SameButMessage left status

/-- What holds of a worker that was started with a request. -/
structure Inv (githubToken : String) (request : TaskRequest) (p : Process) : Prop where
  made : ∃ q, (runTask githubToken true request).Proceeds p.made q
  running : ∀ request' q, p.running = some (request', q) →
    request' = request ∧ (runTask githubToken true request).Proceeds p.made q
  exposed : ∀ id status, p.statuses id = some status → id = request.taskID ∧
    (Unfinished status ∧ p.running ≠ none ∨ Ended githubToken request p status)

section Inv

variable {githubToken : String} {request : TaskRequest} {p p' : Process} {id : String}
  {status status' : TaskStatus}

theorem SameButMessage.refl (status : TaskStatus) : SameButMessage status status :=
  ⟨status.message, rfl⟩

theorem SameButMessage.trans {status'' : TaskStatus} (h : SameButMessage status status')
    (message : String) (h' : status'' = { status' with message := message }) :
    SameButMessage status status'' := by
  obtain ⟨_, rfl⟩ := h
  exact ⟨message, h'⟩

theorem SameButMessage.url (h : SameButMessage status status') :
    status'.pullRequestURL = status.pullRequestURL := by
  obtain ⟨_, rfl⟩ := h
  rfl

theorem SameButMessage.phase (h : SameButMessage status status') : status'.phase = status.phase := by
  obtain ⟨_, rfl⟩ := h
  rfl

theorem Unfinished.afterCall {statuses : Registry} {o : WorkerOp}
    (h : ∀ id status, statuses id = some status → id = request.taskID ∧ Unfinished status)
    (hs : statuses.afterCall o id = some status) : id = request.taskID ∧ Unfinished status := by
  rcases Registry.afterCall_eq_some hs with hs | ⟨percent, message, old, _, hold, rfl⟩
  · exact h id status hs
  · obtain ⟨hid, hunfinished⟩ := h _ _ hold
    exact ⟨hid, hunfinished.phase, hunfinished.url⟩

theorem Inv.boot (githubToken : String) (request : TaskRequest) :
    Inv githubToken request (boot githubToken (some request)) := by
  refine ⟨⟨_, .refl _⟩, ?_, ?_⟩
  · rintro request' q hrunning
    cases hrunning
    exact ⟨rfl, .refl _⟩
  · intro id status hs
    rcases Registry.set_eq_some hs with ⟨hid, rfl⟩ | hs
    · exact ⟨hid, Or.inl ⟨⟨rfl, rfl⟩, by simp [Process.boot]⟩⟩
    · cases hs

theorem Inv.unfinished (h : Inv githubToken request p) (hrunning : p.running ≠ none) :
    ∀ id status, p.statuses id = some status → id = request.taskID ∧ Unfinished status := by
  intro id status hs
  obtain ⟨hid, ⟨hunfinished, _⟩ | hended⟩ := h.exposed id status hs
  · exact ⟨hid, hunfinished⟩
  · exact absurd hended.1 hrunning

theorem Inv.step (h : Inv githubToken request p) (hstep : Step p p') : Inv githubToken request p' := by
  cases hstep with
  | @call request' o next r hrunning =>
    obtain ⟨rfl, hq⟩ := h.running _ _ hrunning
    have hunfinished := h.unfinished (by simp [hrunning])
    refine ⟨⟨_, hq.next r⟩, ?_, ?_⟩
    · rintro request'' q hrunning'
      cases hrunning'
      exact ⟨rfl, hq.next r⟩
    · intro id status hs
      obtain ⟨hid, hstatus⟩ := Unfinished.afterCall hunfinished hs
      exact ⟨hid, Or.inl ⟨hstatus, by simp⟩⟩
  | @finish request' result s hrunning =>
    obtain ⟨rfl, hq⟩ := h.running _ _ hrunning
    refine ⟨h.made, ?_, ?_⟩
    · rintro request'' q hrunning'
      cases hrunning'
    · intro id status hs
      have hid : id = request'.taskID := by
        cases result with
        | ok left =>
          rcases Registry.set_eq_some hs with ⟨hid, _⟩ | hs
          · exact hid
          · exact (h.exposed id status hs).1
        | error exc =>
          rcases Registry.set_eq_some hs with ⟨hid, _⟩ | hs
          · exact hid
          · exact (h.exposed id status hs).1
      subst hid
      refine ⟨rfl, Or.inr ⟨rfl, result, s, hq.runs, status, ?_, .refl status⟩⟩
      cases result with
      | ok left =>
        simp only [Registry.finishTask, Registry.set_same] at hs ⊢
        exact hs
      | error exc =>
        simp only [Registry.finishTask, Registry.set_same] at hs ⊢
        exact hs
  | @finalize taskID old message hold hphase =>
    refine ⟨h.made, h.running, ?_⟩
    intro id status hs
    rcases Registry.set_eq_some hs with ⟨rfl, rfl⟩ | hs
    · obtain ⟨hid, ⟨hunfinished, _⟩ | ⟨hdone, result, s, hrun, left, hleft, hsame⟩⟩ :=
        h.exposed _ _ hold
      · rw [hunfinished.phase] at hphase
        cases hphase
      · exact ⟨hid, Or.inr ⟨hdone, result, s, hrun, left, hleft, hsame.trans message rfl⟩⟩
    · exact h.exposed id status hs

theorem Reached.inv (h : Reached githubToken (some request) p) : Inv githubToken request p := by
  induction h with
  | refl => exact Inv.boot githubToken request
  | tail _ hstep ih => exact ih.step hstep

theorem Reached.progress (h : Reached githubToken (some request) p) : ∀ id status,
    p.statuses id = some status → status.phase = .running → 0 ≤ status.progress ∧ status.progress ≤ 99 := by
  induction h with
  | refl =>
    intro id status hs _
    rcases Registry.set_eq_some hs with ⟨_, rfl⟩ | hs
    · exact ⟨by simp, by simp⟩
    · cases hs
  | tail hreached hstep ih =>
    intro id status hs hphase
    have hinv := Reached.inv hreached
    cases hstep with
    | @call request' o next r hrunning =>
      obtain ⟨rfl, hq⟩ := hinv.running _ _ hrunning
      obtain ⟨rest, ⟨result, s'⟩, hrun⟩ := (hq.next r).completes WorkerOp.benign
      have htells : Tells request'.taskID o := runTask_tells hrun ⟨o, r⟩ (by simp)
      rcases Registry.afterCall_eq_some hs with hs | ⟨percent, message, old, rfl, _, rfl⟩
      · exact ih id status hs hphase
      · have hpercent := htells.2
        dsimp only
        omega
    | @finish request' result s' hrunning =>
      obtain ⟨rfl, hq⟩ := hinv.running _ _ hrunning
      cases result with
      | ok left =>
        rcases Registry.set_eq_some hs with ⟨_, rfl⟩ | hs
        · have hconcluded := runTask_concluded hq.runs
          simp [Concluded, hphase] at hconcluded
        · exact ih id status hs hphase
      | error exc =>
        rcases Registry.set_eq_some hs with ⟨_, rfl⟩ | hs
        · cases hphase
        · exact ih id status hs hphase
    | @finalize taskID old message hold hsucceeded =>
      rcases Registry.set_eq_some hs with ⟨_, rfl⟩ | hs
      · rw [show old.phase = .running from hphase] at hsucceeded
        cases hsucceeded
      · exact ih id status hs hphase

/-- Without a request there is nothing to expose. -/
theorem Reached.nothing (h : Reached githubToken none p) :
    p.statuses id = none ∧ p.running = none ∧ p.made = [] := by
  induction h generalizing id with
  | refl => exact ⟨rfl, rfl, rfl⟩
  | tail _ hstep ih =>
    cases hstep with
    | call r hrunning =>
      rw [(@ih id).2.1] at hrunning
      cases hrunning
    | finish hrunning =>
      rw [(@ih id).2.1] at hrunning
      cases hrunning
    | finalize message hold _ =>
      rw [ih.1] at hold
      cases hold

theorem Ended.later (h : Ended githubToken request p status)
    (hsteps : Relation.ReflTransGen Step p p') : Ended githubToken request p' status := by
  induction hsteps with
  | refl => exact h
  | tail _ hstep ih =>
    obtain ⟨hdone, hrun⟩ := ih
    cases hstep with
    | call r hrunning =>
      rw [hdone] at hrunning
      cases hrunning
    | finish hrunning =>
      rw [hdone] at hrunning
      cases hrunning
    | finalize message _ _ => exact ⟨hdone, hrun⟩

theorem Ended.concluded (h : Ended githubToken request p status) : Concluded status := by
  obtain ⟨_, result, s, hrun, left, hleft, hsame⟩ := h
  unfold Concluded
  rw [hsame.phase]
  cases result with
  | ok final =>
    simp only [Registry.finishTask, Registry.set_same, Option.some.injEq] at hleft
    rw [← hleft]
    exact runTask_concluded hrun
  | error exc =>
    simp only [Registry.finishTask, Registry.set_same, Option.some.injEq] at hleft
    simp [← hleft]

/-- A run that was given a pull request leaves it in the registry. -/
theorem Ended.url (h : Ended githubToken request p status) (hurl : request.prURL ≠ "") :
    status.pullRequestURL = request.prURL := by
  obtain ⟨_, result, s, hrun, left, hleft, hsame⟩ := h
  obtain ⟨final, rfl, _, hfinal⟩ := runTask_given hrun hurl
  simp only [Registry.finishTask, Registry.set_same, Option.some.injEq] at hleft
  rw [hsame.url, ← hleft, hfinal]

/-- A worker that was given a pull request opens none, and exposes no other. -/
theorem Reached.given (h : Reached githubToken (some request) p) (hurl : request.prURL ≠ "") :
    Calm p.made ∧ ∀ id status, p.statuses id = some status →
      status.pullRequestURL = request.prURL ∨ status.pullRequestURL = "" := by
  have hinv := h.inv
  constructor
  · obtain ⟨q, hq⟩ := hinv.made
    obtain ⟨tr', ⟨result, s⟩, hrun⟩ := hq.completes WorkerOp.benign
    obtain ⟨_, _, hcalm, _⟩ := runTask_given hrun hurl
    exact (calm_append.mp hcalm).1
  · intro id status hs
    obtain ⟨_, ⟨hunfinished, _⟩ | hended⟩ := hinv.exposed id status hs
    · exact Or.inr hunfinished.url
    · exact Or.inl (hended.url hurl)

end Inv

/-! ## A run to its end -/

/-- The run is carried to its end, with these answers. -/
def complete (answer : (o : WorkerOp) → o.Resp) (p : Process) : Process :=
  match p.running with
  | none => p
  | some (request, q) =>
    let ended := play (fun (_ : Unit) o => (answer o, ())) q ()
    ⟨(ended.1.foldl (fun statuses e => statuses.afterCall e.1) p.statuses).finishTask request
      ended.2.1.1, p.made ++ ended.1, none⟩

/-- A step of a run that is not over. -/
def Works (p p' : Process) : Prop := p.running ≠ none ∧ p.Step p'

theorem complete_works (answer : (o : WorkerOp) → o.Resp) (p : Process) :
    Relation.ReflTransGen Works p (p.complete answer) := by
  obtain ⟨statuses, made, running⟩ := p
  cases running with
  | none => exact .refl
  | some pair =>
    obtain ⟨request, q⟩ := pair
    induction q generalizing statuses made with
    | ret result => exact .single ⟨by simp, by simpa [complete, play] using Step.finish rfl⟩
    | call o next ih =>
      refine .head ⟨by simp, .call (answer o) rfl⟩ ?_
      have hrest := ih (answer o) (statuses.afterCall o) (made ++ [⟨o, answer o⟩])
      simpa [complete, play] using hrest

end Process

end BulletFarm.Worker
