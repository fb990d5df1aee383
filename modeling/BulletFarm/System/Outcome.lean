import BulletFarm.System.ReadyForReview
import BulletFarm.Worker.Outcome

/-!
# The outcome that is recorded and the phase that is decided

Within one Reconcile GitHub is asked twice: for the operator, which decides the phase, and
for the graduation, which records the outcome. Nothing of the first answer reaches the
second look.
-/

namespace BulletFarm.System

open Interaction Program Operator
open Worker (FindsMerged PROutcome Sends TaskStatus WorkerM WorkerOp getTaskPRStatus
  getTaskPRStatus_ends graduateTask graduateTask_records recordedOutcome)

set_option autoImplicit false

/-- The body of a reply of the pr-status route. -/
def prStatusJson (response : Worker.PRStatusResponse) : Json.Value :=
  .obj [("pr_url", .str response.prURL), ("state", .str response.state),
    ("merged", .bool response.merged), ("draft", .bool response.draft)]

def prStatusReply (response : Worker.PRStatusResponse) : Except String HttpReply :=
  .ok ⟨200, .ok (some (prStatusJson response))⟩

theorem decode_prStatusReply (response : Worker.PRStatusResponse) :
    decodeReply {} PRStatusResponse.set (prStatusReply response) =
      .ok ⟨response.prURL, response.state, response.merged, response.draft⟩ := by
  have hurl : ∀ (s : PRStatusResponse) v, s.set "pr_url" v =
      (Go.stringField v s.prURL).map fun x => { s with prURL := x } := fun _ _ => rfl
  have hstate : ∀ (s : PRStatusResponse) v, s.set "state" v =
      (Go.stringField v s.state).map fun x => { s with state := x } := fun _ _ => rfl
  have hmerged : ∀ (s : PRStatusResponse) v, s.set "merged" v =
      (Go.boolField v s.merged).map fun x => { s with merged := x } := fun _ _ => rfl
  have hdraft : ∀ (s : PRStatusResponse) v, s.set "draft" v =
      (Go.boolField v s.draft).map fun x => { s with draft := x } := fun _ _ => rfl
  simp only [decodeReply, prStatusReply, prStatusJson, Go.unmarshal, Option.bind_some,
    List.foldlM_cons, List.foldlM_nil, hurl, hstate, hmerged, hdraft, Go.stringField, Go.boolField,
    Option.map_some, Option.bind_eq_bind]
  rfl

/-- A graduation with the phase that its Reconcile has decided: what GitHub had said when the
operator asked, and the calls of the graduation with their answers. -/
structure Decision where
  first : List (Event WorkerOp.Resp)
  second : List (Event WorkerOp.Resp)
  phase : Phase

/-- What has come of the pull request in this Reconcile, and all decisions. -/
structure Inquiry where
  first : List (Event WorkerOp.Resp)
  graduations : List (List (Event WorkerOp.Resp))
  decided : List Decision

namespace Inquiry

def start : Inquiry := ⟨[], [], []⟩

/-- A reply of the pr-status route that can be decoded comes of a look at GitHub. -/
def Looks (f : Fleet) (url : WorkerURL) (reply : Except String HttpReply)
    (tr : List (Event WorkerOp.Resp)) : Prop :=
  ∀ s, decodeReply {} PRStatusResponse.set reply = .ok s → ∃ x ∈ f.runners, x.ip = url.podIP ∧
    ∃ response, (getTaskPRStatus x.process.statuses url.taskID : WorkerM Unit _).Ends () tr
      (.ok (.ok response)) () ∧ reply = prStatusReply response

/-- A worker at this IP carries out a graduation. -/
def Graduates (f : Fleet) (url : WorkerURL) (tr : List (Event WorkerOp.Resp)) : Prop :=
  ∃ x ∈ f.runners, x.ip = url.podIP ∧
    ∃ r, (graduateTask x.process.statuses url.taskID : WorkerM Unit _).Ends () tr r ()

/-- A graduate request may get lost. -/
def Next (f : Fleet) (h : Inquiry) : (o : ApiOp) → o.Resp → Inquiry → Prop
  | .getTask _, _, h' => h' = { h with first := [], graduations := [] }
  | .httpGet url, reply, h' =>
    if url.endpoint = .prStatus then ∃ tr, Looks f url reply tr ∧ h' = { h with first := tr }
    else h' = h
  | .httpPost url, _, h' =>
    if url.endpoint = .graduate then
      h' = h ∨ ∃ tr, Graduates f url tr ∧ h' = { h with graduations := h.graduations ++ [tr] }
    else h' = h
  | .updateTaskStatus t, _, h' =>
    h' = { h with decided := h.decided ++ h.graduations.map fun tr => ⟨h.first, tr, t.status.phase⟩ }
  | _, _, h' => h' = h

end Inquiry

def inquiry (task : AgentTask) : Environment ApiOp ApiOp.Resp (Fleet × Inquiry) where
  answer w o r w' := (fleet task).answer w.1 o r w'.1 ∧ w.2.Next w.1 o r w'.2
  drift w w' := w.1.Drift w'.1 ∧ w'.2 = w.2

/-- The outcome that goes with a phase. -/
def outcomeOfPhase : Phase → Option PROutcome
  | .merged => some .merged
  | .closed => some .closed
  | _ => none

/-- The document records the outcome that was decided. -/
def Agrees (doc : Python.Dict) (phase : Phase) : Prop :=
  recordedOutcome doc ≠ none ∧ recordedOutcome doc = outcomeOfPhase phase

instance (doc : Python.Dict) (phase : Phase) : Decidable (Agrees doc phase) :=
  inferInstanceAs (Decidable (_ ∧ _))

variable {task : AgentTask} {w w' : Fleet × Inquiry}

theorem stores_inquiry (task : AgentTask) : Stores task (inquiry task) fun w => w.1.store :=
  ⟨fun h => h.1.1, fun h => h.1.store_eq⟩

/-! ## One Reconcile -/

/-- A graduation records one outcome: merged, if it has found the pull request merged. -/
def Recording (tr : List (Event WorkerOp.Resp)) : Prop :=
  ∃ outcome, (outcome = .merged ↔ FindsMerged tr) ∧
    ∀ doc, Sends tr doc → recordedOutcome doc = some outcome

/-- The phase goes by the first look. -/
structure Decision.Sound (d : Decision) : Prop where
  recording : Recording d.second
  phase : d.phase = .merged ∧ FindsMerged d.first ∨ d.phase = .closed ∧ ¬ FindsMerged d.first

structure InquiryInv (h : Inquiry) : Prop where
  graduations : ∀ tr ∈ h.graduations, Recording tr
  decided : ∀ d ∈ h.decided, d.Sound

/-- What the answers to a Reconcile have to do with the history. -/
structure Inquired (a : AgentTaskStatus) (tr : List (Event ApiOp.Resp)) (h : Inquiry) : Prop where
  looked : ∀ url reply s, ⟨.httpGet url, reply⟩ ∈ tr → url.endpoint = .prStatus →
    decodeReply {} PRStatusResponse.set reply = .ok s →
    (s.merged = true → FindsMerged h.first) ∧
      (s.merged = false → s.state = "closed" → ¬ FindsMerged h.first)
  graduated : h.graduations ≠ [] → a.phase ∈ [Phase.completed, .waitingForPR] ∧
    ∃ url reply, ⟨.httpPost url, reply⟩ ∈ tr

theorem InquiryInv.start : InquiryInv .start :=
  ⟨fun _ h => (by cases h), fun _ h => (by cases h)⟩

theorem inquired_nil {h : Inquiry} (a : AgentTaskStatus) (hnone : h.graduations = []) :
    Inquired a [] h :=
  ⟨fun _ _ _ hget => (by cases hget), fun hsome => absurd hnone hsome⟩

/-- The decision is written with what was looked up. -/
theorem Inquired.decides {h : Inquiry} {a : AgentTaskStatus} {n : Nat} {tr : List (Event ApiOp.Resp)}
    (hinquired : Inquired a tr h) (hinv : InquiryInv h) {b : AgentTaskStatus}
    (ho : Justified (task.version n a) tr (.updateTaskStatus { task.version n a with status := b }))
    {second : List (Event WorkerOp.Resp)} (hsecond : second ∈ h.graduations) :
    Decision.Sound ⟨h.first, second, b.phase⟩ := by
  obtain ⟨hwaiting, url, posted, hposted⟩ := hinquired.graduated (List.ne_nil_of_mem hsecond)
  obtain ⟨s', hs', hwrite⟩ := ho.waiting hwaiting
  have hb : b = s' := congrArg AgentTask.status hs'
  subst hb
  refine ⟨hinv.graduations second hsecond, ?_⟩
  cases hwrite with
  | noPR _ => cases hposted
  | untracked _ => simp at hposted
  | merged hdecode hmerged =>
    left
    refine ⟨rfl, ?_⟩
    exact (hinquired.looked _ _ _ (List.mem_cons_of_mem _ List.mem_cons_self) rfl hdecode).1 hmerged
  | closed hdecode hopen hclosed =>
    right
    refine ⟨rfl, ?_⟩
    exact (hinquired.looked _ _ _ (List.mem_cons_of_mem _ List.mem_cons_self) rfl hdecode).2 hopen hclosed
  | undecided _ _ _ => simp at hposted

theorem Inquired.call {f : Fleet} {h h' : Inquiry} {a : AgentTaskStatus} {n : Nat}
    {tr : List (Event ApiOp.Resp)} (hinquired : Inquired a tr h) (hinv : InquiryInv h) {o : ApiOp}
    {r : o.Resp} (ho : Justified (task.version n a) tr o) (hnext : h.Next f o r h') :
    InquiryInv h' ∧ Inquired a (tr ++ [⟨o, r⟩]) h' := by
  have hgraduated : h.graduations ≠ [] → a.phase ∈ [Phase.completed, .waitingForPR] ∧
      ∃ url reply, ⟨.httpPost url, reply⟩ ∈ tr ++ [⟨o, r⟩] := by
    intro hsome
    obtain ⟨hwaiting, url, reply, hposted⟩ := hinquired.graduated hsome
    exact ⟨hwaiting, url, reply, List.mem_append_left _ hposted⟩
  have hkeeps : (∀ url, o = .httpGet url → url.endpoint ≠ .prStatus) →
      Inquired a (tr ++ [⟨o, r⟩]) h := by
    intro hno
    refine ⟨?_, hgraduated⟩
    intro url reply s hget hurl
    rcases List.mem_append.mp hget with hgot | hnew
    · exact hinquired.looked url reply s hgot hurl
    · cases List.mem_singleton.mp hnew
      exact absurd hurl (hno url rfl)
  cases o with
  | getTask key => exact ho.1.elim
  | httpGet url =>
    unfold Inquiry.Next at hnext
    dsimp only at hnext
    split at hnext
    · rename_i hurl
      obtain ⟨first, hlooks, rfl⟩ := hnext
      refine ⟨⟨hinv.graduations, hinv.decided⟩, ?_, hgraduated⟩
      intro url' reply s hget _ hdecode
      -- it is the first request of the Reconcile
      obtain ⟨pod, htr, _⟩ := ho.waiting (ho.1.2 hurl)
      rcases List.mem_append.mp hget with hgot | hnew
      · simp [htr] at hgot
      · cases List.mem_singleton.mp hnew
        obtain ⟨x, _, _, response, hend, rfl⟩ := hlooks s hdecode
        rw [decode_prStatusReply] at hdecode
        cases hdecode
        exact getTaskPRStatus_ends hend
    · rename_i hurl
      subst hnext
      refine ⟨hinv, hkeeps ?_⟩
      intro url' heq
      cases heq
      exact hurl
  | httpPost url =>
    unfold Inquiry.Next at hnext
    dsimp only at hnext
    have hsame := hkeeps (by simp)
    split at hnext
    · rename_i hgraduate
      rcases hnext with rfl | ⟨second, ⟨x, _, _, r', hend⟩, rfl⟩
      · exact ⟨hinv, hsame⟩
      · refine ⟨⟨?_, hinv.decided⟩, hsame.looked, fun _ => ⟨ho.1 hgraduate, url, r, by simp⟩⟩
        intro tr' htr'
        rcases List.mem_append.mp htr' with hold | hnew
        · exact hinv.graduations tr' hold
        · rw [List.mem_singleton.mp hnew]
          exact graduateTask_records hend
    · subst hnext
      exact ⟨hinv, hsame⟩
  | updateTaskStatus t =>
    obtain ⟨b, rfl, _⟩ := ho.1
    cases hnext
    have hsame := hkeeps (by simp)
    refine ⟨⟨hinv.graduations, ?_⟩, hsame.looked, hsame.graduated⟩
    intro d hd
    rcases List.mem_append.mp hd with hold | hnew
    · exact hinv.decided d hold
    · obtain ⟨second, hsecond, rfl⟩ := List.mem_map.mp hnew
      exact hinquired.decides hinv ho hsecond
  | _ =>
    cases hnext
    exact ⟨hinv, hkeeps (by simp)⟩

/-! ## Every run -/

theorem inquiry_inv {c : Pool Unit ApiOp ApiOp.Resp Operator.Outcome (Fleet × Inquiry)}
    (hc : Reachable (inquiry task) task (Fleet.start, .start) c) : InquiryInv c.world.2 := by
  refine (stores_inquiry task).invariant_justified (fun w => InquiryInv w.2)
    (fun a tr w => Inquired a tr w.2) ?_ ?_ ?_ ?_ InquiryInv.start hc
  · intro w w' h hd
    rw [hd.2]
    exact h
  · intro a tr w w' h hd
    rw [hd.2]
    exact h
  · intro w r w' h hans
    rw [show w'.2 = _ from hans.2]
    exact ⟨⟨fun _ hnone => (by cases hnone), h.decided⟩, fun n a _ => inquired_nil a rfl⟩
  · exact fun w o r w' a tr h hheld _ ho hans => hheld.call h ho hans.2

/-- What a graduation records is what its Reconcile has decided exactly if GitHub has said
of the pull request both times that it is merged, or neither time. -/
theorem outcome_agrees_iff {c : Pool Unit ApiOp ApiOp.Resp Operator.Outcome (Fleet × Inquiry)}
    (hc : Reachable (inquiry task) task (Fleet.start, .start) c) :
    ∀ d ∈ c.world.2.decided, ∀ doc, Sends d.second doc →
      (Agrees doc d.phase ↔ (FindsMerged d.second ↔ FindsMerged d.first)) := by
  intro d hd doc hdoc
  obtain ⟨⟨outcome, hfound, hrecorded⟩, hphase⟩ := (inquiry_inv hc).decided d hd
  have houtcome := hrecorded doc hdoc
  rw [← hfound]
  unfold Agrees
  rw [houtcome]
  rcases hphase with ⟨hphase, hfirst⟩ | ⟨hphase, hfirst⟩
  · rw [hphase]
    simp [outcomeOfPhase, hfirst]
  · rw [hphase]
    cases outcome with
    | merged => simp [outcomeOfPhase, hfirst]
    | closed => simp [outcomeOfPhase, hfirst]

/-! A second look that fails. -/

/-- GitHub's answer about the pull request, and a Succeeded document of the task. -/
def lookAnswers (pull : Except Python.Exc Worker.Pull) : (o : WorkerOp) → o.Resp
  | .getPull _ _ => pull
  | .search _ => .ok [⟨[("task_id", .str "t"), ("phase", .str "Succeeded"), ("prompt", .str "do it"),
      ("output", .str "done")], none⟩]
  | o => o.benign

def mergedPull : Worker.Pull := ⟨pullURL, 1, "closed", true, false⟩

namespace Inquiry

/-- The look of the worker at this IP, with these answers. -/
def looked (answer : (o : WorkerOp) → o.Resp) (f : Fleet) (url : WorkerURL) :
    Option (List (Event WorkerOp.Resp) × (Except Python.Exc (Except Worker.HTTPException
      Worker.PRStatusResponse) × Unit) × Unit) :=
  (f.runners.find? fun x => x.ip = url.podIP).map fun x =>
    play (fun _ o => (answer o, ())) ((getTaskPRStatus x.process.statuses url.taskID).start ()) ()

def graduated (answer : (o : WorkerOp) → o.Resp) (f : Fleet) (url : WorkerURL) :
    Option (List (Event WorkerOp.Resp) × (Except Python.Exc (Except Worker.HTTPException
      Worker.GraduateResponse) × Unit) × Unit) :=
  (f.runners.find? fun x => x.ip = url.podIP).map fun x =>
    play (fun _ o => (answer o, ())) ((graduateTask x.process.statuses url.taskID).start ()) ()

/-- GitHub gives `first` to the operator's question and `second` to the graduation. -/
def respond (first second : Except Python.Exc Worker.Pull) (w : Fleet × Inquiry) :
    (o : ApiOp) → o.Resp × Fleet × Inquiry
  | .getTask key =>
    let answered := w.1.respond skilledTask (.getTask key)
    (answered.1, answered.2, { w.2 with first := [], graduations := [] })
  | .httpGet url =>
    if url.endpoint = .prStatus then
      match looked (lookAnswers first) w.1 url with
      | some (tr, (.ok (.ok response), _), _) => (prStatusReply response, w.1, { w.2 with first := tr })
      | _ => (.error "connection refused", w)
    else
      let answered := w.1.respond skilledTask (.httpGet url)
      (answered.1, answered.2, w.2)
  | .httpPost url =>
    let answered := w.1.respond skilledTask (.httpPost url)
    (answered.1, answered.2,
      if url.endpoint = .graduate then
        match graduated (lookAnswers second) w.1 url with
        | some (tr, _) => { w.2 with graduations := w.2.graduations ++ [tr] }
        | none => w.2
      else w.2)
  | .updateTaskStatus t =>
    let answered := w.1.respond skilledTask (.updateTaskStatus t)
    (answered.1, answered.2, { w.2 with
      decided := w.2.decided ++ w.2.graduations.map fun tr => ⟨w.2.first, tr, t.status.phase⟩ })
  | o =>
    let answered := w.1.respond skilledTask o
    (answered.1, answered.2, w.2)

theorem looks_looked {answer : (o : WorkerOp) → o.Resp} {f : Fleet} {url : WorkerURL}
    {tr : List (Event WorkerOp.Resp)} {response : Worker.PRStatusResponse} {u v : Unit}
    (h : looked answer f url = some (tr, (.ok (.ok response), u), v)) :
    Looks f url (prStatusReply response) tr := by
  intro s _
  obtain ⟨x, hx, hplay⟩ := Option.map_eq_some_iff.mp h
  have hruns := runs_play (fun (_ : Unit) o => (answer o, ()))
    ((getTaskPRStatus x.process.statuses url.taskID : WorkerM Unit _).start ()) ()
  rw [hplay] at hruns
  have hip := List.find?_some hx
  exact ⟨x, List.mem_of_find?_eq_some hx, by simpa using hip, response, hruns, rfl⟩

theorem graduates_graduated {answer : (o : WorkerOp) → o.Resp} {f : Fleet} {url : WorkerURL}
    {tr : List (Event WorkerOp.Resp)}
    {r : (Except Python.Exc (Except Worker.HTTPException Worker.GraduateResponse) × Unit) × Unit}
    (h : graduated answer f url = some (tr, r)) : Graduates f url tr := by
  obtain ⟨x, hx, hplay⟩ := Option.map_eq_some_iff.mp h
  have hruns := runs_play (fun (_ : Unit) o => (answer o, ()))
    ((graduateTask x.process.statuses url.taskID : WorkerM Unit _).start ()) ()
  rw [hplay] at hruns
  have hip := List.find?_some hx
  exact ⟨x, List.mem_of_find?_eq_some hx, by simpa using hip, _, hruns⟩

theorem answer_respond (first second : Except Python.Exc Worker.Pull) (w : Fleet × Inquiry) (o : ApiOp) :
    (inquiry skilledTask).answer w o (respond first second w o).1 (respond first second w o).2 := by
  have hfleet := Fleet.answer_respond skilledTask w.1 o
  cases o with
  | httpGet url =>
    unfold respond inquiry Next
    dsimp only
    split
    · rename_i hurl
      have hsame : ∀ reply, (fleet skilledTask).answer w.1 (.httpGet url) reply w.1 := by
        intro reply
        refine ⟨rfl, rfl, ?_, rfl⟩
        intro hstatus
        rw [hurl] at hstatus
        cases hstatus
      split
      · rename_i hlooked
        exact ⟨hsame _, _, looks_looked hlooked, rfl⟩
      · exact ⟨hsame _, w.2.first, fun s hdecode => (by cases hdecode), rfl⟩
    · exact ⟨hfleet, rfl⟩
  | httpPost url =>
    unfold respond inquiry Next
    dsimp only
    refine ⟨hfleet, ?_⟩
    split
    · split
      · rename_i hgraduated
        exact Or.inr ⟨_, graduates_graduated hgraduated, rfl⟩
      · exact Or.inl rfl
    · rfl
  | _ => exact ⟨hfleet, rfl⟩

/-- Neither a look at the pull request nor a graduation. -/
def Apart : ApiOp → Prop
  | .httpGet url => url.endpoint ≠ .prStatus
  | .httpPost url => url.endpoint ≠ .graduate
  | _ => True

instance : DecidablePred Apart
  | .httpGet url => inferInstanceAs (Decidable (url.endpoint ≠ .prStatus))
  | .httpPost url => inferInstanceAs (Decidable (url.endpoint ≠ .graduate))
  | .getTask _ | .updateTaskStatus _ | .getAgent _ | .listTasks _ | .setControllerReference _ _
  | .getPod _ | .createPod _ | .deletePod _ | .updateAgentStatus _ | .now => isTrue trivial

/-- The environment asks no more of these calls than the fleet does. -/
structure Allows (task : AgentTask) (env : Environment ApiOp ApiOp.Resp (Fleet × Inquiry)) : Prop where
  answer {f f' : Fleet} {o : ApiOp} {r : o.Resp} : Apart o → (fleet task).answer f o r f' →
    env.answer (f, .start) o r (f', .start)
  drift {f f' : Fleet} : f.Drift f' → env.drift (f, .start) (f', .start)

theorem allows_inquiry (task : AgentTask) : Allows task (inquiry task) := by
  refine ⟨fun ho hans => ⟨hans, ?_⟩, fun hd => ⟨hd, rfl⟩⟩
  unfold Next
  rename_i o r
  cases o with
  | httpGet url =>
    dsimp only
    rw [if_neg ho]
  | httpPost url =>
    dsimp only
    rw [if_neg ho]
  | _ => rfl

theorem Allows.executes {env : Environment ApiOp ApiOp.Resp (Fleet × Inquiry)} (hallows : Allows task env)
    {α : Type} {p : Program ApiOp ApiOp.Resp α} {f : Fleet}
    (hp : PlaysWithin (fun _ o _ _ => Apart o) (Fleet.respond task) p f) :
    ∃ tr out, Executes env p (f, .start) tr out ((play (Fleet.respond task) p f).2.2, .start) := by
  induction p generalizing f with
  | ret a => exact ⟨_, _, .ret a _⟩
  | call o next ih =>
    obtain ⟨_, _, hrest⟩ := ih _ hp.2
    exact ⟨_, _, .call (hallows.answer hp.1 (Fleet.answer_respond task f o)) hrest⟩

end Inquiry

/-- The task waits for its pull request. -/
def waitingFleet : Fleet :=
  (play (Fleet.respond skilledTask)
    (handleWorkerStatus reviewTask reviewPod.podIP (reported reviewStatus)) reviewPolled).2.2

theorem waitingFleet_reachable {env : Environment ApiOp ApiOp.Resp (Fleet × Inquiry)}
    (hallows : Inquiry.Allows skilledTask env) :
    Reachable env skilledTask (Fleet.start, .start) (Pool.idle (waitingFleet, .start)) := by
  have hstep : ∀ {f : Fleet}, Reachable env skilledTask (Fleet.start, .start) (Pool.idle (f, .start)) →
      PlaysWithin (fun _ o _ _ => Inquiry.Apart o) (Fleet.respond skilledTask)
        (reconcile skilledTask.key) f →
      Reachable env skilledTask (Fleet.start, .start) (Pool.idle (completionStep f, .start)) := by
    intro f hf h
    obtain ⟨_, _, hrun⟩ := hallows.executes h
    exact hf.execute (i := ()) hrun
  have hworks : Relation.ReflTransGen env.drift
      (completionStep (completionStep Fleet.start), .start) (reviewFleet, .start) :=
    reviewFleet_proceeds.lift (fun f => (f, Inquiry.start)) fun _ _ h => hallows.drift h.1
  have hreads : ∀ f o, Reads o → env.answer (f, .start) o
      (f.respond skilledTask o).1 ((f.respond skilledTask o).2, .start) := by
    intro f o ho
    refine hallows.answer ?_ (Fleet.answer_respond skilledTask f o)
    cases o with
    | httpGet url =>
      change url.endpoint = .status at ho
      change url.endpoint ≠ .prStatus
      rw [ho]
      decide
    | _ => trivial
  have hlast : ∃ tr out, Executes env
      (handleWorkerStatus reviewTask reviewPod.podIP (reported reviewStatus)) (reviewPolled, .start) tr
        out (waitingFleet, .start) := by
    refine hallows.executes ?_
    simp only [reviewPolled, reviewTask, reviewPod, reviewStatus, reviewFleet, workerUp_eq]
    decide +kernel
  obtain ⟨_, _, hreport⟩ := executes_report_review (fun f => (f, Inquiry.start)) hreads hlast
  exact ((hstep (hstep .refl (by decide)) (by decide)).drifts hworks).execute (i := ()) hreport

/-- Its next Reconcile. -/
def afterInquiry (first second : Except Python.Exc Worker.Pull) : Fleet × Inquiry :=
  (play (Inquiry.respond first second) (reconcile skilledTask.key) (waitingFleet, .start)).2.2

/-- As functions, or the run is evaluated to see it. -/
theorem afterInquiry_eq : afterInquiry = fun first second =>
    (play (Inquiry.respond first second) (reconcile skilledTask.key) (waitingFleet, .start)).2.2 := rfl

theorem afterInquiry_reachable (first second : Except Python.Exc Worker.Pull) :
    Reachable (inquiry skilledTask) skilledTask (Fleet.start, .start)
      (Pool.idle (afterInquiry first second)) := by
  rw [afterInquiry_eq]
  exact (waitingFleet_reachable (Inquiry.allows_inquiry skilledTask)).execute (i := ())
    (Executes.of_play (Inquiry.answer_respond first second) _ _)

/-- The document an event has sent. -/
def sentBy : Event WorkerOp.Resp → Option Python.Dict
  | ⟨.indexDocument index doc, _⟩ => if index = Worker.sharedMemoryIndex then some doc else none
  | _ => none

theorem sends_of_sentBy {tr : List (Event WorkerOp.Resp)} {doc : Python.Dict}
    (h : doc ∈ tr.filterMap sentBy) : Sends tr doc := by
  obtain ⟨⟨o, r⟩, he, hsent⟩ := List.mem_filterMap.mp h
  cases o with
  | indexDocument index doc' =>
    unfold sentBy at hsent
    dsimp only at hsent
    split at hsent
    · rename_i hindex
      cases hsent
      exact ⟨r, hindex ▸ he⟩
    · cases hsent
  | _ => cases hsent

/-- The pull request is merged, and is recorded as closed without merge. -/
theorem merged_recorded_as_closed :
    Reachable (inquiry skilledTask) skilledTask (Fleet.start, .start)
        (Pool.idle (afterInquiry (.ok mergedPull) (.error Worker.unavailable))) ∧
      ∃ d ∈ (afterInquiry (.ok mergedPull) (.error Worker.unavailable)).2.decided,
        d.phase = .merged ∧ ∃ doc, Sends d.second doc ∧ recordedOutcome doc = some .closed := by
  have hrun : ∃ d ∈ (afterInquiry (.ok mergedPull) (.error Worker.unavailable)).2.decided,
      d.phase = .merged ∧ ∃ doc ∈ d.second.filterMap sentBy, recordedOutcome doc = some .closed := by
    decide +kernel
  obtain ⟨d, hd, hphase, doc, hdoc, hrecorded⟩ := hrun
  exact ⟨afterInquiry_reachable _ _, d, hd, hphase, doc, sends_of_sentBy hdoc, hrecorded⟩

/-- GitHub says the same twice. -/
theorem outcome_agrees_demo :
    ∃ d ∈ (afterInquiry (.ok mergedPull) (.ok mergedPull)).2.decided, d.phase = .merged ∧
      ∃ doc, Sends d.second doc ∧ (Agrees doc d.phase ↔ (FindsMerged d.second ↔ FindsMerged d.first)) := by
  have hrun : ∃ d ∈ (afterInquiry (.ok mergedPull) (.ok mergedPull)).2.decided,
      d.phase = .merged ∧ 0 < (d.second.filterMap sentBy).length := by
    decide +kernel
  obtain ⟨d, hd, hphase, hlength⟩ := hrun
  obtain ⟨doc, hdoc⟩ := List.exists_mem_of_length_pos hlength
  have hsent := sends_of_sentBy hdoc
  have hiff := outcome_agrees_iff (afterInquiry_reachable (.ok mergedPull) (.ok mergedPull))
  rw [Pool.idle_world] at hiff
  exact ⟨d, hd, hphase, doc, hsent, hiff d hd doc hsent⟩

end BulletFarm.System
