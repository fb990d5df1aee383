import BulletFarm.Worker.Finalize

/-!
# A worker that is sent tasks

Besides the task of its environment a worker takes tasks by `POST /tasks`, each with an
execution of its own in the background. All of them write to one registry, and status
requests are answered from it. An answer that a task is over stands for as long as no
task is sent again before the worker is done with it, or after it has said that it is.
-/

namespace BulletFarm.Worker

open Interaction Python

set_option autoImplicit false

/-- An `_execute_task` that is not over, and how far its `run_task` has come. -/
structure Execution where
  request : TaskRequest
  rest : Program WorkerOp WorkerOp.Resp (Except Exc TaskStatus × RunState)

/-- The registry, the executions in the background, and what the status requests so far
have been answered with. -/
structure Server where
  statuses : Registry
  executions : List Execution
  replies : List (String × Except HTTPException TaskStatus)

namespace Server

/-- `lifespan`, and `create_task` with its background task. -/
def startTask (githubToken : String) (p : Server) (request : TaskRequest) : Server where
  statuses := p.statuses.startTask request
  executions := p.executions ++ [⟨request, runTask githubToken true request⟩]
  replies := p.replies

def boot (githubToken : String) : Option TaskRequest → Server
  | none => ⟨.empty, [], []⟩
  | some request => startTask githubToken ⟨.empty, [], []⟩ request

/-- One step of a server, with the request of a task that is sent by it. -/
inductive Step (githubToken : String) : Server → Option TaskRequest → Server → Prop where
  | createTask {p : Server} (request : TaskRequest) :
      Step githubToken p (some request) (p.startTask githubToken request)
  | call {p : Server} {before after : List Execution} {request : TaskRequest} {o : WorkerOp}
      {next : o.Resp → Program WorkerOp WorkerOp.Resp (Except Exc TaskStatus × RunState)}
      (r : o.Resp) : p.executions = before ++ ⟨request, .call o next⟩ :: after →
      Step githubToken p none
        ⟨p.statuses.afterCall o, before ++ ⟨request, next r⟩ :: after, p.replies⟩
  | finish {p : Server} {before after : List Execution} {request : TaskRequest}
      {result : Except Exc TaskStatus} {s : RunState} :
      p.executions = before ++ ⟨request, .ret (result, s)⟩ :: after →
      Step githubToken p none ⟨p.statuses.finishTask request result, before ++ after, p.replies⟩
  | finalizeTask {p : Server} {taskID : String} {tr : List (Event FinalizeOp.Resp)}
      {reply : Except Exc (Except HTTPException TaskStatus)} {statuses : Registry} :
      (Worker.finalizeTask githubToken taskID).Ends p.statuses tr reply statuses →
      Step githubToken p none { p with statuses := statuses }
  | getTaskStatus {p : Server} (taskID : String) :
      Step githubToken p none
        { p with replies := p.replies ++ [(taskID, Worker.getTaskStatus p.statuses taskID)] }

/-- A step, whatever task is sent by it. -/
def Takes (githubToken : String) (p p' : Server) : Prop := ∃ sent, Step githubToken p sent p'

/-- An execution of the task is under way. -/
def Busy (p : Server) (taskID : String) : Prop := ∃ e ∈ p.executions, e.request.taskID = taskID

/-- No execution of the task is under way, and no status request has been told that it is over. -/
def Awaits (p : Server) (taskID : String) : Prop :=
  ¬ p.Busy taskID ∧ ∀ status, (taskID, .ok status) ∈ p.replies → ¬ Concluded status

/-- A step that sends no task but one that the server awaits. -/
def Proceeds (githubToken : String) (p p' : Server) : Prop :=
  ∃ sent, Step githubToken p sent p' ∧ ∀ request, sent = some request → p.Awaits request.taskID

/-- After a reply that the task is over, the later ones have the same phase and pull request. -/
def Settled (replies : List (String × Except HTTPException TaskStatus)) : Prop :=
  replies.Pairwise fun earlier later => ∀ status, earlier.2 = .ok status → Concluded status →
    later.1 = earlier.1 → ∃ status', later.2 = .ok status' ∧ status'.phase = status.phase ∧
      status'.pullRequestURL = status.pullRequestURL

/-- What a status may become while the phase and the pull request stay; the progress moves
during an execution only. -/
structure Alike (busy : Prop) (status status' : TaskStatus) : Prop where
  phase : status'.phase = status.phase
  url : status'.pullRequestURL = status.pullRequestURL
  progress : ¬ busy → status'.progress = status.progress

structure Inv (githubToken : String) (p : Server) : Prop where
  alone : (p.executions.map fun e => e.request.taskID).Nodup
  runs : ∀ e ∈ p.executions, ∃ tr, (runTask githubToken true e.request).Proceeds tr e.rest
  running : ∀ id, p.Busy id → ∃ status, p.statuses id = some status ∧ status.phase = .running
  ended : ∀ id status, p.statuses id = some status → ¬ p.Busy id →
    Concluded status ∧ (status.phase = .succeeded → status.progress = 100)
  told : ∀ id status, (id, .ok status) ∈ p.replies → Concluded status → ¬ p.Busy id ∧
    ∃ status', p.statuses id = some status' ∧ status'.phase = status.phase ∧
      status'.pullRequestURL = status.pullRequestURL
  settled : Settled p.replies
  whole : ∀ id status, (id, .ok status) ∈ p.replies → status.phase = .succeeded → status.progress = 100

section Inv
variable {githubToken : String} {p p' : Server}

theorem busy_iff {id : String} :
    p.Busy id ↔ id ∈ p.executions.map fun e => e.request.taskID := by
  simp [Busy]

theorem Alike.refl (busy : Prop) (status : TaskStatus) : Alike busy status status :=
  ⟨rfl, rfl, fun _ => rfl⟩

theorem Inv.boot_none (githubToken : String) : Inv githubToken (boot githubToken none) where
  alone := List.nodup_nil
  runs := by simp [boot]
  running := by simp [boot, Busy]
  ended := by simp [boot, Registry.empty]
  told := by simp [boot]
  settled := List.Pairwise.nil
  whole := by simp [boot]

theorem Inv.startTask (h : Inv githubToken p) {request : TaskRequest}
    (hawaits : p.Awaits request.taskID) : Inv githubToken (p.startTask githubToken request) := by
  have hbusy : ∀ id, (p.startTask githubToken request).Busy id ↔ p.Busy id ∨ id = request.taskID := by
    intro id
    simp [busy_iff, Server.startTask]
  have hother : ∀ id, id ≠ request.taskID →
      (p.startTask githubToken request).statuses id = p.statuses id := by
    intro id hid
    simp [Server.startTask, Registry.startTask, Registry.set, hid]
  refine ⟨?_, ?_, ?_, ?_, ?_, h.settled, h.whole⟩
  · have hnew := mt busy_iff.mpr hawaits.1
    simp only [Server.startTask, List.map_append, List.map_cons, List.map_nil]
    refine List.Nodup.append h.alone (List.nodup_singleton _) ?_
    exact List.disjoint_singleton.mpr hnew
  · intro e he
    rcases List.mem_append.mp he with he | he
    · exact h.runs e he
    · rw [List.mem_singleton.mp he]
      exact ⟨[], .refl _⟩
  · intro id hid
    by_cases hsame : id = request.taskID
    · subst hsame
      exact ⟨_, Registry.set_same _ _ _, rfl⟩
    · rw [hother id hsame]
      exact h.running id (((hbusy id).mp hid).resolve_right hsame)
  · intro id status hstatus hidle
    have hidle' := not_or.mp (mt (hbusy id).mpr hidle)
    rw [hother id hidle'.2] at hstatus
    exact h.ended id status hstatus hidle'.1
  · intro id status hreply hconcluded
    have hsame : id ≠ request.taskID := by
      rintro rfl
      exact hawaits.2 status hreply hconcluded
    obtain ⟨hidle, hstatus⟩ := h.told id status hreply hconcluded
    rw [hother id hsame]
    exact ⟨fun hid => ((hbusy id).mp hid).elim hidle hsame, hstatus⟩

theorem Inv.goesOn (h : Inv githubToken p) {statuses : Registry} {executions : List Execution}
    (hsame : (executions.map fun e => e.request.taskID) = p.executions.map fun e => e.request.taskID)
    (hruns : ∀ e ∈ executions, ∃ tr, (runTask githubToken true e.request).Proceeds tr e.rest)
    (halike : ∀ id, Option.Rel (Alike (p.Busy id)) (p.statuses id) (statuses id)) :
    Inv githubToken { p with statuses := statuses, executions := executions } := by
  have hbusy : ∀ id, ({ p with statuses := statuses, executions := executions } : Server).Busy id ↔
      p.Busy id := by
    intro id
    rw [busy_iff, busy_iff, hsame]
  refine ⟨hsame ▸ h.alone, hruns, ?_, ?_, ?_, h.settled, h.whole⟩
  · intro id hid
    obtain ⟨status, hstatus, hphase⟩ := h.running id ((hbusy id).mp hid)
    have hid' := halike id
    rw [hstatus] at hid'
    generalize hnew : statuses id = new at hid'
    cases hid' with
    | some hrel => exact ⟨_, hnew, hrel.phase.trans hphase⟩
  · intro id status' hstatus' hidle
    have hid' := halike id
    rw [show statuses id = some status' from hstatus'] at hid'
    generalize hold : p.statuses id = old at hid'
    cases hid' with
    | some hrel =>
      have hidle' := mt (hbusy id).mpr hidle
      obtain ⟨hconcluded, hprogress⟩ := h.ended id _ hold hidle'
      unfold Concluded at hconcluded ⊢
      rw [hrel.phase, hrel.progress hidle']
      exact ⟨hconcluded, hprogress⟩
  · intro id status hreply hconcluded
    obtain ⟨hidle, status', hstatus', hphase, hurl⟩ := h.told id status hreply hconcluded
    have hid' := halike id
    rw [hstatus'] at hid'
    generalize hnew : statuses id = new at hid'
    cases hid' with
    | some hrel =>
      exact ⟨mt (hbusy id).mp hidle, _, hnew, hrel.phase.trans hphase, hrel.url.trans hurl⟩

/-- A call of an execution touches the status of its own task at most. -/
theorem Inv.call (h : Inv githubToken p) {before after : List Execution} {request : TaskRequest}
    {o : WorkerOp} {next : o.Resp → Program WorkerOp WorkerOp.Resp (Except Exc TaskStatus × RunState)}
    (r : o.Resp) (hp : p.executions = before ++ ⟨request, .call o next⟩ :: after) :
    Inv githubToken ⟨p.statuses.afterCall o, before ++ ⟨request, next r⟩ :: after, p.replies⟩ := by
  have hmem : (⟨request, .call o next⟩ : Execution) ∈ p.executions := by simp [hp]
  obtain ⟨tr, hproceeds⟩ := h.runs _ hmem
  have hbusy : p.Busy request.taskID := ⟨_, hmem, rfl⟩
  have htells : Tells request.taskID o := by
    obtain ⟨tr', ⟨result, s⟩, hrun⟩ := (hproceeds.next r).completes WorkerOp.benign
    exact runTask_tells hrun ⟨o, r⟩ (by simp)
  apply h.goesOn (p := p)
  · simp [hp]
  · intro e he
    rcases List.mem_append.mp he with he | he
    · exact h.runs e (by simp [hp, he])
    rcases List.mem_cons.mp he with rfl | he
    · exact ⟨_, hproceeds.next r⟩
    · exact h.runs e (by simp [hp, he])
  · intro id
    have hrefl : Option.Rel (Alike (p.Busy id)) (p.statuses id) (p.statuses id) := by
      cases p.statuses id with
      | none => exact .none
      | some status => exact .some (.refl _ status)
    cases o with
    | progress taskID percent message =>
      obtain ⟨rfl, _⟩ := htells
      obtain ⟨status, hstatus, _⟩ := h.running _ hbusy
      simp only [Registry.afterCall, Registry.updateProgress, hstatus]
      by_cases hid : id = request.taskID
      · subst hid
        rw [hstatus, Registry.set_same]
        exact .some ⟨rfl, rfl, fun hidle => absurd hbusy hidle⟩
      · simpa only [Registry.set, if_neg hid] using hrefl
    | _ => exact hrefl

/-- The server without one of its executions, with the status that this has left. -/
def endTask (p : Server) (executions : List Execution) (taskID : String) (final : TaskStatus) :
    Server :=
  ⟨p.statuses.set taskID final, executions, p.replies⟩

theorem endTask_other {executions : List Execution} {taskID id : String} {final : TaskStatus}
    (hid : id ≠ taskID) : (p.endTask executions taskID final).statuses id = p.statuses id :=
  if_neg hid

theorem Inv.endTask (h : Inv githubToken p) {before after : List Execution} {e : Execution}
    {final : TaskStatus} (hp : p.executions = before ++ e :: after) (hconcluded : Concluded final)
    (hwhole : final.phase = .succeeded → final.progress = 100) :
    Inv githubToken (p.endTask (before ++ after) e.request.taskID final) := by
  have hmem : ∀ {e' : Execution}, e' ∈ p.executions ↔ e' ∈ before ++ after ∨ e' = e := by
    intro e'
    rw [hp]
    simp only [List.mem_append, List.mem_cons]
    tauto
  have hbusy : p.Busy e.request.taskID := ⟨e, hmem.mpr (Or.inr rfl), rfl⟩
  have halone := h.alone
  rw [hp, List.map_append, List.map_cons] at halone
  have hidle : ¬ (p.endTask (before ++ after) e.request.taskID final).Busy e.request.taskID := by
    rw [busy_iff]
    simpa [Server.endTask] using (List.nodup_middle.mp halone).notMem
  have hbusy' : ∀ id, (p.endTask (before ++ after) e.request.taskID final).Busy id → p.Busy id :=
    fun id ⟨e', he', hid⟩ => ⟨e', hmem.mpr (Or.inl he'), hid⟩
  refine ⟨?_, ?_, ?_, ?_, ?_, h.settled, h.whole⟩
  · simpa [Server.endTask] using (List.nodup_middle.mp halone).of_cons
  · exact fun e' he' => h.runs e' (hmem.mpr (Or.inl he'))
  · intro id hid
    have hne : id ≠ e.request.taskID := by
      rintro rfl
      exact hidle hid
    rw [endTask_other hne]
    exact h.running id (hbusy' id hid)
  · intro id status hstatus hgone
    by_cases hid : id = e.request.taskID
    · subst hid
      cases (Registry.set_same _ _ _).symm.trans hstatus
      exact ⟨hconcluded, hwhole⟩
    · rw [endTask_other hid] at hstatus
      refine h.ended id status hstatus ?_
      rintro ⟨e', he', hsame⟩
      rcases hmem.mp he' with he' | rfl
      · exact hgone ⟨e', he', hsame⟩
      · exact hid hsame.symm
  · intro id status hreply hover
    obtain ⟨hover', hstatus⟩ := h.told id status hreply hover
    have hne : id ≠ e.request.taskID := by
      rintro rfl
      exact hover' hbusy
    rw [endTask_other hne]
    exact ⟨mt (hbusy' id) hover', hstatus⟩

theorem Inv.finish (h : Inv githubToken p) {before after : List Execution} {request : TaskRequest}
    {result : Except Exc TaskStatus} {s : RunState}
    (hp : p.executions = before ++ ⟨request, .ret (result, s)⟩ :: after) :
    Inv githubToken ⟨p.statuses.finishTask request result, before ++ after, p.replies⟩ := by
  have hmem : (⟨request, .ret (result, s)⟩ : Execution) ∈ p.executions := by simp [hp]
  obtain ⟨tr, hproceeds⟩ := h.runs _ hmem
  cases result with
  | ok final =>
    have hcomplete := runTask_complete hproceeds.runs
    refine h.endTask hp hcomplete.concluded fun hphase => ?_
    rcases hcomplete.ending with ⟨_, hprogress⟩ | ⟨hfailed, _⟩
    · exact hprogress
    · rw [hfailed] at hphase
      cases hphase
  | error exc =>
    refine h.endTask hp (by simp [Concluded]) fun hphase => ?_
    cases hphase

theorem Inv.finalizeTask (h : Inv githubToken p) {taskID : String}
    {tr : List (Event FinalizeOp.Resp)} {reply : Except Exc (Except HTTPException TaskStatus)}
    {statuses : Registry}
    (hends : (Worker.finalizeTask githubToken taskID).Ends p.statuses tr reply statuses) :
    Inv githubToken { p with statuses := statuses } := by
  refine h.goesOn rfl h.runs fun id => ?_
  have hrefl : Option.Rel (Alike (p.Busy id)) (p.statuses id) (p.statuses id) := by
    cases p.statuses id with
    | none => exact .none
    | some status => exact .some (.refl _ status)
  have hmessage : ∀ {status : TaskStatus} (message : String), p.statuses taskID = some status →
      Option.Rel (Alike (p.Busy id)) (p.statuses id)
        (p.statuses.set taskID { status with message := message } id) := by
    intro status message hstatus
    by_cases hid : id = taskID
    · subst hid
      rw [hstatus, Registry.set_same]
      exact .some ⟨rfl, rfl, fun _ => rfl⟩
    · simpa only [Registry.set, if_neg hid] using hrefl
  obtain ⟨_, _, hfinalized⟩ := finalizeTask_ends hends
  cases hfinalized with
  | rejected _ => exact hrefl
  | nothing _ _ _ => exact hrefl
  | marked hstatus _ _ _ => exact hmessage _ hstatus
  | raised hstatus _ _ _ => exact hmessage _ hstatus

/-- What a status request is told agrees with what earlier ones were told. -/
theorem Inv.getTaskStatus (h : Inv githubToken p) (taskID : String) :
    Inv githubToken
      { p with replies := p.replies ++ [(taskID, Worker.getTaskStatus p.statuses taskID)] } := by
  have hreply : ∀ id status, (id, .ok status) ∈ p.replies ++
      [(taskID, Worker.getTaskStatus p.statuses taskID)] →
      (id, .ok status) ∈ p.replies ∨ p.statuses id = some status := by
    intro id status hmem
    rcases List.mem_append.mp hmem with hmem | hmem
    · exact Or.inl hmem
    · obtain ⟨rfl, hstatus⟩ := Prod.mk.inj (List.mem_singleton.mp hmem)
      exact Or.inr (getTaskStatus_eq_ok.mp hstatus.symm)
  refine ⟨h.alone, h.runs, h.running, h.ended, ?_, ?_, ?_⟩
  · intro id status hmem hconcluded
    rcases hreply id status hmem with hmem | hstatus
    · exact h.told id status hmem hconcluded
    · refine ⟨fun hbusy => ?_, status, hstatus, rfl, rfl⟩
      obtain ⟨status', hstatus', hrunning⟩ := h.running id hbusy
      rw [hstatus] at hstatus'
      cases hstatus'
      simp [Concluded, hrunning] at hconcluded
  · refine List.pairwise_append.mpr ⟨h.settled, List.pairwise_singleton _ _, ?_⟩
    rintro ⟨id, x⟩ hmem later hlater status rfl hconcluded hid
    rw [List.mem_singleton.mp hlater] at hid ⊢
    dsimp only at hid
    subst hid
    obtain ⟨_, status', hstatus', hsame⟩ := h.told taskID status hmem hconcluded
    exact ⟨status', by simp [Worker.getTaskStatus, hstatus'], hsame⟩
  · intro id status hmem hsucceeded
    rcases hreply id status hmem with hmem | hstatus
    · exact h.whole id status hmem hsucceeded
    · refine (h.ended id status hstatus fun hbusy => ?_).2 hsucceeded
      obtain ⟨status', hstatus', hrunning⟩ := h.running id hbusy
      rw [hstatus] at hstatus'
      cases hstatus'
      rw [hrunning] at hsucceeded
      cases hsucceeded

theorem Inv.step (h : Inv githubToken p) (hstep : Proceeds githubToken p p') : Inv githubToken p' := by
  obtain ⟨sent, hstep, hawaits⟩ := hstep
  cases hstep with
  | createTask request => exact h.startTask (hawaits request rfl)
  | call r hp => exact h.call r hp
  | finish hp => exact h.finish hp
  | finalizeTask hends => exact h.finalizeTask hends
  | getTaskStatus taskID => exact h.getTaskStatus taskID

theorem Inv.boot (githubToken : String) (request : Option TaskRequest) :
    Inv githubToken (boot githubToken request) := by
  cases request with
  | none => exact Inv.boot_none githubToken
  | some request =>
    apply (Inv.boot_none githubToken).startTask
    constructor
    · simp [Server.boot, Busy]
    · simp [Server.boot]

end Inv

/-- As long as no task is sent but when the server awaits it, a reply that a task is over is
final, and a task that has succeeded has come all the way. -/
theorem finished_final {githubToken : String} {request : Option TaskRequest} {p : Server}
    (h : Relation.ReflTransGen (Proceeds githubToken) (boot githubToken request) p) :
    Settled p.replies ∧
      ∀ id status, (id, .ok status) ∈ p.replies → status.phase = .succeeded → status.progress = 100 := by
  have hinv : Inv githubToken p := by
    induction h with
    | refl => exact Inv.boot githubToken request
    | tail _ hstep ih => exact ih.step hstep
  exact ⟨hinv.settled, hinv.whole⟩

/-! ## Executions to their end -/

/-- An execution is carried to its end, with these answers. -/
def carry (answer : (o : WorkerOp) → o.Resp) (p : Server) (e : Execution)
    (executions : List Execution) : Server :=
  let ended := play (fun (_ : Unit) o => (answer o, ())) e.rest ()
  ⟨(ended.1.foldl (fun statuses event => statuses.afterCall event.1) p.statuses).finishTask e.request
    ended.2.1.1, executions, p.replies⟩

theorem carry_proceeds {githubToken : String} (answer : (o : WorkerOp) → o.Resp) {p : Server}
    {before after : List Execution} {e : Execution} (hp : p.executions = before ++ e :: after) :
    Relation.ReflTransGen (Proceeds githubToken) p (p.carry answer e (before ++ after)) := by
  obtain ⟨statuses, executions, replies⟩ := p
  obtain ⟨request, rest⟩ := e
  dsimp only at hp
  subst hp
  induction rest generalizing statuses with
  | ret result => exact .single ⟨none, .finish rfl, fun _ h => by cases h⟩
  | call o next ih =>
    have hcall : Proceeds githubToken ⟨statuses, before ++ ⟨request, .call o next⟩ :: after, replies⟩
        ⟨statuses.afterCall o, before ++ ⟨request, next (answer o)⟩ :: after, replies⟩ :=
      ⟨none, .call (answer o) rfl, fun _ h => by cases h⟩
    exact .head hcall (ih (answer o) (statuses.afterCall o))

theorem Proceeds.takes {githubToken : String} {p p' : Server} (h : Proceeds githubToken p p') :
    Takes githubToken p p' :=
  ⟨h.choose, h.choose_spec.1⟩

/-- The server has been asked for the status of the task. -/
def asked (p : Server) (taskID : String) : Server :=
  { p with replies := p.replies ++ [(taskID, Worker.getTaskStatus p.statuses taskID)] }

theorem asked_replies {p : Server} {taskID : String} {status : TaskStatus}
    (h : p.statuses taskID = some status) :
    (p.asked taskID).replies = p.replies ++ [(taskID, .ok status)] := by
  simp [asked, Worker.getTaskStatus, h]

def demoExecution : Execution := ⟨demoRequest, runTask "token" true demoRequest⟩

/-- GitHub cannot be reached. -/
def gitHubDown : (o : FinalizeOp) → o.Resp
  | .getRepo _ => .error ⟨.connectionError, "GitHub is down"⟩
  | .getPull _ _ => .error ⟨.connectionError, "GitHub is down"⟩
  | .post _ _ _ _ => .error ⟨.connectionError, "GitHub is down"⟩

/-- The server has been told to finalize the task. -/
def finalized (githubToken : String) (p : Server) (taskID : String) : Server :=
  { p with statuses := (play (fun (_ : Unit) o => (gitHubDown o, ()))
      ((Worker.finalizeTask githubToken taskID).start p.statuses) ()).2.1.2 }

theorem finalized_proceeds (githubToken : String) (p : Server) (taskID : String) :
    Proceeds githubToken p (finalized githubToken p taskID) :=
  ⟨none, .finalizeTask (runs_play (fun (_ : Unit) o => (gitHubDown o, ()))
    ((Worker.finalizeTask githubToken taskID).start p.statuses) ()), fun _ h => by cases h⟩

theorem asked_proceeds {githubToken : String} (p : Server) (taskID : String) :
    Proceeds githubToken p (p.asked taskID) :=
  ⟨none, .getTaskStatus taskID, fun _ h => by cases h⟩

/-- A task is sent and comes to its end; its status is asked for before and after it is finalized. -/
def demoServer : Server :=
  let ended := ((boot "token" none).startTask "token" demoRequest).carry (demoAnswers 0) demoExecution []
  ((finalized "token" (ended.asked "task-1") "task-1").asked "task-1").asked "task-1"

theorem finished_final_demo : (Settled demoServer.replies ∧ ∀ id status,
    (id, .ok status) ∈ demoServer.replies → status.phase = .succeeded → status.progress = 100) ∧
    (demoServer.replies.map fun reply => reply.2.toOption.map fun status =>
      (status.phase, status.message)) =
        [some (.succeeded, "Done"), some (.succeeded, "PR marked ready for review"),
          some (.succeeded, "PR marked ready for review")] := by
  have hsent : Proceeds "token" (boot "token" none) ((boot "token" none).startTask "token" demoRequest) := by
    refine ⟨some demoRequest, .createTask demoRequest, fun request _ => ⟨?_, ?_⟩⟩
    · rintro ⟨e, he, _⟩
      exact absurd he List.not_mem_nil
    · exact fun status hreply => absurd hreply List.not_mem_nil
  have hp : ((boot "token" none).startTask "token" demoRequest).executions =
      [] ++ demoExecution :: [] := rfl
  have hsteps : Relation.ReflTransGen (Proceeds "token") (boot "token" none) demoServer :=
    (((((Relation.ReflTransGen.single hsent).trans (carry_proceeds (demoAnswers 0) hp)).tail
      (asked_proceeds _ "task-1")).tail (finalized_proceeds "token" _ "task-1")).tail
        (asked_proceeds _ "task-1")).tail (asked_proceeds _ "task-1")
  exact ⟨finished_final hsteps, by decide +kernel⟩

/-! ## A task that is sent twice -/

/-- The task is sent twice, and one of the executions comes to its end. -/
def resentServer : Server :=
  (((boot "token" none).startTask "token" demoRequest).startTask "token" demoRequest).carry
    (demoAnswers 0) demoExecution [demoExecution]

theorem resentServer_takes : Relation.ReflTransGen (Takes "token") (boot "token" none) resentServer := by
  have hp : (((boot "token" none).startTask "token" demoRequest).startTask "token"
      demoRequest).executions = [] ++ demoExecution :: [demoExecution] := rfl
  have hcarry : Relation.ReflTransGen (Takes "token")
      (((boot "token" none).startTask "token" demoRequest).startTask "token" demoRequest) resentServer :=
    (carry_proceeds (demoAnswers 0) hp).lift id fun _ _ h => Proceeds.takes h
  refine .trans ?_ hcarry
  exact .tail (.single ⟨_, .createTask demoRequest⟩) ⟨_, .createTask demoRequest⟩

/-- The first report of the execution that is left. -/
theorem report_takes {p : Server} (hp : p.executions = [demoExecution]) : ∃ executions,
    Relation.ReflTransGen (Takes "token") p
      ⟨p.statuses.updateProgress "task-1" 10 "Cloning repository", executions, p.replies⟩ := by
  obtain ⟨next, hnext⟩ : ∃ next, (runBuffered "token" true demoRequest).start (.begin demoRequest 0) =
      .call (.progress "task-1" 10 "Cloning repository") next := ⟨_, rfl⟩
  have hnow : Step "token" p none ⟨p.statuses, [] ++ ⟨demoRequest, .call
      (.progress "task-1" 10 "Cloning repository") next⟩ :: [], p.replies⟩ := by
    rw [← hnext]
    have hp' : p.executions = [] ++ ⟨demoRequest, .call .now fun t =>
      (runBuffered "token" true demoRequest).start (.begin demoRequest t)⟩ :: [] := hp
    exact .call (0 : Time) hp'
  have hreport : Step "token" ⟨p.statuses, [] ++ ⟨demoRequest, .call
      (.progress "task-1" 10 "Cloning repository") next⟩ :: [], p.replies⟩ none
      ⟨p.statuses.updateProgress "task-1" 10 "Cloning repository", [] ++ ⟨demoRequest, next ()⟩ :: [],
        p.replies⟩ := @Step.call "token" _ [] [] demoRequest (.progress "task-1" 10 _) next () rfl
  exact ⟨_, .tail (.single ⟨none, hnow⟩) ⟨none, hreport⟩⟩

/-- A task that has succeeded comes back with less progress, and then as running. -/
theorem finished_undone : ∃ p, Relation.ReflTransGen (Takes "token") (boot "token" none) p ∧
    ¬ Settled p.replies ∧ ∃ id status, (id, .ok status) ∈ p.replies ∧ status.phase = .succeeded ∧
      status.progress ≠ 100 := by
  have hphase : (resentServer.statuses "task-1").map (fun status => status.phase) = some .succeeded := by
    decide +kernel
  obtain ⟨status, hstatus, hsucceeded⟩ := Option.map_eq_some_iff.mp hphase
  have hask : ∀ (p : Server) (id : String), Takes "token" p (p.asked id) :=
    fun p id => (asked_proceeds p id).takes
  have hleft : (resentServer.asked "task-1").executions = [demoExecution] := rfl
  obtain ⟨executions, hreport⟩ := report_takes hleft
  have hsteps := (((resentServer_takes.tail (hask _ "task-1")).trans hreport).tail (hask _ "task-1")).tail
    ⟨_, .createTask demoRequest⟩
  have hreported : (resentServer.asked "task-1").statuses.updateProgress "task-1" 10 "Cloning repository"
      "task-1" = some { status with progress := 10, message := "Cloning repository" } := by
    simp only [asked, Registry.updateProgress, hstatus, Registry.set_same]
    rfl
  refine ⟨_, hsteps.tail (hask _ "task-1"), ?_⟩
  have hrestarted : ∀ p : Server, (p.startTask "token" demoRequest).statuses "task-1" =
      some { taskID := "task-1", phase := .running } := fun p =>
    p.statuses.set_same "task-1" { taskID := "task-1", phase := .running }
  rw [asked_replies (hrestarted _), startTask, asked_replies hreported, asked_replies hstatus]
  refine ⟨fun hsettled => ?_, "task-1", { status with progress := 10, message := "Cloning repository" },
    by simp, hsucceeded, (by decide : (10 : Int) ≠ 100)⟩
  have hlast := (List.pairwise_append.mp hsettled).2.2 ("task-1", .ok status) (by simp) _
    (List.mem_singleton_self _) status rfl (by simp [Concluded, hsucceeded]) rfl
  obtain ⟨status', hrunning, hphase', _⟩ := hlast
  cases hrunning
  rw [hsucceeded] at hphase'
  cases hphase'

end Server

end BulletFarm.Worker
