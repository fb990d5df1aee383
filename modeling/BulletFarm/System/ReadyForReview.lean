import BulletFarm.System.Completion
import BulletFarm.System.PullRequestURL
import BulletFarm.Worker.Finalize

/-!
# The pull request of a waiting task is ready for review

The operator asks the worker once to mark the pull request ready, and does not look at
what comes of it; nor does the worker look at what GitHub has said. So the status and the
message say that it was done whenever it was tried. It was done where every request gets
through and GitHub agrees.
-/

namespace BulletFarm.System

open Interaction Program Operator
open Worker (FinalizeOp Finalized HTTPException Marks Process TaskStatus finalizeTask finalizeTask_ends
  parsePullURL startupRequest verdict)

set_option autoImplicit false

/-- A fleet, the URLs for which `mark_pr_ready` has returned True, and the statuses that
the finalize route has given in reply. -/
structure Review where
  fleet : Fleet
  ready : List String
  finalized : List TaskStatus

/-- What may go wrong: which requests of the operator may get lost, and how GitHub may
answer to one that has come through, and to one that is carried out at another time. -/
structure Outside where
  lost : Review → WorkerURL → Prop
  direct : Review → String → List (Event FinalizeOp.Resp) → Prop
  late : Review → String → List (Event FinalizeOp.Resp) → Prop

namespace Review

def start : Review := ⟨Fleet.start, [], []⟩

/-- What a finalize request does to the history. -/
def record (w : Review) (f : Fleet) (tr : List (Event FinalizeOp.Resp)) :
    Except HTTPException TaskStatus → Review
  | .error _ => { w with fleet := f }
  | .ok status =>
    if status.pullRequestURL = "" then { w with fleet := f }
    else {
      fleet := f
      ready := if Marks status.pullRequestURL tr then w.ready ++ [status.pullRequestURL] else w.ready
      finalized := w.finalized ++ [status] }

/-- A worker at this IP carries out a finalize request. -/
inductive Finalizes (github : Review → String → List (Event FinalizeOp.Resp) → Prop) (w : Review)
    (url : WorkerURL) : Review → Prop where
  | mk {before after : List Runner} {x : Runner} {tr : List (Event FinalizeOp.Resp)}
      {reply : Except HTTPException TaskStatus} {statuses : Worker.Registry} :
      w.fleet.runners = before ++ x :: after → x.ip = url.podIP →
      (finalizeTask x.token url.taskID).Ends x.process.statuses tr (.ok reply) statuses →
      (∀ status, x.process.statuses url.taskID = some status → status.phase = .succeeded →
        status.pullRequestURL ≠ "" → github w status.pullRequestURL tr) →
      Finalizes github w url (w.record { w.fleet with runners :=
        before ++ { x with process := { x.process with statuses := statuses } } :: after } tr reply)

/-- What a call does besides what it does to any fleet. -/
def Reacts (outside : Outside) (w : Review) : ApiOp → Review → Prop
  | .httpPost url, w' =>
    if url.endpoint = .finalize then
      outside.lost w url ∧ w' = w ∨ Finalizes outside.direct w url w'
    else w' = w
  | _, w' => w' = w

/-- The fleet moves on, and a finalize request may be carried out at any time. -/
inductive Drift (outside : Outside) : Review → Review → Prop where
  | fleet {w : Review} {f : Fleet} : w.fleet.Proceeds f → Drift outside w { w with fleet := f }
  | finalize {w w' : Review} {url : WorkerURL} : Finalizes outside.late w url w' → Drift outside w w'

end Review

def review (task : AgentTask) (outside : Outside) : Environment ApiOp ApiOp.Resp Review where
  answer w o r w' := ∃ f, (fleet task).answer w.fleet o r f ∧
    Review.Reacts outside { w with fleet := f } o w'
  drift := Review.Drift outside

/-- Anything may go wrong. -/
def anything : Outside := ⟨fun _ _ => True, fun _ _ _ => True, fun _ _ _ => True⟩

/-- As long as a pull request is not ready, the operator's request for it gets through and
GitHub agrees to everything, and to no other request does GitHub refuse anything. -/
def willing : Outside where
  lost w url := ∀ x ∈ w.fleet.runners, x.ip = url.podIP → ∀ status,
    x.process.statuses url.taskID = some status →
      status.pullRequestURL = "" ∨ status.pullRequestURL ∈ w.ready
  direct w prURL tr := prURL ∈ w.ready ∨ parsePullURL prURL ≠ none ∧ ∀ e ∈ tr, verdict e = .agrees
  late w prURL tr := prURL ∈ w.ready ∨ parsePullURL prURL ≠ none ∧ ∀ e ∈ tr, verdict e ≠ .refuses

variable {task : AgentTask} {outside : Outside} {w w' : Review}

/-! ## What a request changes -/

theorem Review.Finalizes.drifts {github : Review → String → List (Event FinalizeOp.Resp) → Prop}
    {url : WorkerURL} (h : Review.Finalizes github w url w') :
    Relation.ReflTransGen Fleet.Drift w.fleet w'.fleet := by
  cases h with
  | @mk before after x tr reply statuses hrunners _ hend _ =>
    obtain ⟨reply', hreply, hfinalized⟩ := finalizeTask_ends hend
    cases hreply
    have hworks := Fleet.works hrunners hfinalized.steps
    have hfleet : ∀ f, (w.record f tr reply).fleet = f := by
      intro f
      unfold Review.record
      split
      · rfl
      · split <;> rfl
    rw [hfleet]
    exact hworks

theorem Review.Finalizes.ready {github : Review → String → List (Event FinalizeOp.Resp) → Prop}
    {url : WorkerURL} (h : Review.Finalizes github w url w') : ∀ u ∈ w.ready, u ∈ w'.ready := by
  cases h with
  | mk _ _ _ _ =>
    intro u hu
    unfold Review.record
    split
    · exact hu
    · split
      · exact hu
      · dsimp only
        split
        · exact List.mem_append_left _ hu
        · exact hu

theorem Review.Drift.drifts (h : w.Drift outside w') :
    Relation.ReflTransGen Fleet.Drift w.fleet w'.fleet := by
  cases h with
  | fleet hproceeds => exact .single hproceeds.1
  | finalize hfinalizes => exact hfinalizes.drifts

theorem Review.Reacts.drifts {o : ApiOp} (h : w.Reacts outside o w') :
    Relation.ReflTransGen Fleet.Drift w.fleet w'.fleet := by
  cases o with
  | httpPost url =>
    unfold Review.Reacts at h
    dsimp only at h
    split at h
    · rcases h with ⟨_, rfl⟩ | hfinalizes
      · exact .refl
      · exact hfinalizes.drifts
    · rw [h]
  | _ =>
    cases h
    exact .refl

theorem fleets_review (task : AgentTask) (outside : Outside) :
    Fleets task (review task outside) Review.fleet := by
  refine ⟨?_, fun hd => hd.drifts⟩
  rintro w w' o r ⟨f, hans, hreacts⟩
  exact ⟨f, hans, hreacts.drifts⟩

/-! ## A worker that has succeeded -/

/-- The run is over, and its status is Succeeded with this URL. -/
def Runner.Done (x : Runner) (taskID prURL : String) : Prop :=
  x.process.running = none ∧ ∃ status, x.process.statuses taskID = some status ∧
    status.phase = .succeeded ∧ status.pullRequestURL = prURL

/-- The worker at this IP has succeeded. -/
def Fleet.DoneAt (f : Fleet) (ip taskID prURL : String) : Prop :=
  ∃ x ∈ f.runners, x.ip = ip ∧ x.Done taskID prURL

theorem Runner.Done.later {x x' : Runner} {taskID prURL : String} (h : x.Done taskID prURL)
    (hlater : x.Later x') : x'.Done taskID prURL := by
  have hsteps := hlater.process
  unfold Runner.Done at *
  generalize x'.process = p at hsteps ⊢
  induction hsteps with
  | refl => exact h
  | tail _ hstep ih =>
    obtain ⟨hidle, status, hstatus, hphase, hurl⟩ := ih
    cases hstep with
    | call r hrunning =>
      rw [hidle] at hrunning
      cases hrunning
    | finish hrunning =>
      rw [hidle] at hrunning
      cases hrunning
    | @finalize id old message hold hsucceeded =>
      refine ⟨hidle, ?_⟩
      unfold Worker.Registry.set
      dsimp only
      split
      · rename_i hid
        subst hid
        rw [hstatus] at hold
        cases hold
        exact ⟨_, rfl, hphase, hurl⟩
      · exact ⟨status, hstatus, hphase, hurl⟩

theorem Fleet.DoneAt.drifts {f f' : Fleet} {ip taskID prURL : String} (h : f.DoneAt ip taskID prURL)
    (hd : Relation.ReflTransGen Fleet.Drift f f') : f'.DoneAt ip taskID prURL := by
  induction hd with
  | refl => exact h
  | tail _ hstep ih =>
    obtain ⟨x, hx, hip, hdone⟩ := ih
    obtain ⟨x', hx', hlater⟩ := hstep.later hx
    exact ⟨x', hx', hlater.ip.trans hip, hdone.later hlater⟩

theorem Fleet.DoneAt.congr {f f' : Fleet} {ip taskID prURL : String} (h : f.DoneAt ip taskID prURL)
    (hrunners : f'.runners = f.runners) : f'.DoneAt ip taskID prURL := by
  unfold Fleet.DoneAt
  rw [hrunners]
  exact h

def Successful (s : WorkerStatus) : Prop := s.phase = "Succeeded" ∨ s.phase = "Completed"

theorem FleetInv.doneAt {f f' : Fleet} (h : FleetInv task f) {ip taskID : String}
    {reply : Except String HttpReply} {s : WorkerStatus}
    (hans : (fleet task).answer f (.httpGet ⟨ip, taskID, .status⟩) reply f')
    (hdecode : decodeReply {} WorkerStatus.set reply = .ok s) (hs : Successful s) :
    f.DoneAt ip taskID s.pullRequestURL := by
  obtain ⟨x, hx, hip, status, hstatus, rfl⟩ := hans.2.2.1 rfl s hdecode
  obtain ⟨hphase, hurl⟩ := decode_statusReply hdecode
  have hvalue : status.phase = .succeeded := by
    unfold Successful at hs
    rw [hphase] at hs
    cases hp : status.phase <;> simp [hp, Worker.TaskPhase.value] at hs ⊢
  have hsome : x.process.statuses taskID = some status := Worker.getTaskStatus_eq_ok.mp hstatus
  obtain ⟨request, _, _, hunfinished | hended⟩ := h.exposed hx hsome
  · rw [hunfinished.phase] at hvalue
    cases hvalue
  · exact ⟨x, hx, hip, hended.1, status, hsome, hvalue, hurl.symm⟩

/-! ## What a willing request does -/

section Willing
variable {github : Review → String → List (Event FinalizeOp.Resp) → Prop} {url : WorkerURL}

/-- Unless GitHub refuses, the message says what was done. -/
theorem Review.Finalizes.recorded (h : Review.Finalizes github w url w')
    (hgithub : ∀ prURL tr, github w prURL tr →
      prURL ∈ w.ready ∨ parsePullURL prURL ≠ none ∧ ∀ e ∈ tr, verdict e ≠ .refuses)
    (hrecorded : ∀ status ∈ w.finalized, status.message = "PR marked ready for review" →
      status.pullRequestURL ∈ w.ready) :
    ∀ status ∈ w'.finalized, status.message = "PR marked ready for review" →
      status.pullRequestURL ∈ w'.ready := by
  have hready := h.ready
  cases h with
  | @mk before after x tr reply statuses hrunners _ hend hask =>
    obtain ⟨_, hreply, hfinalized⟩ := finalizeTask_ends hend
    cases hreply
    have hold : ∀ status ∈ w.finalized, status.message = "PR marked ready for review" →
        status.pullRequestURL ∈ (w.record _ tr reply).ready :=
      fun status hstatus hmessage => hready _ (hrecorded status hstatus hmessage)
    cases hfinalized with
    | rejected _ => exact hrecorded
    | nothing _ _ hnone =>
      simp only [Review.record, if_pos hnone] at hold ⊢
      exact hold
    | @marked status marked hstatus hphase hurl hdecides =>
      have hnew : status.pullRequestURL ∈ w.ready ∨ Marks status.pullRequestURL tr := by
        rcases hgithub _ _ (hask status hstatus hphase hurl) with hin | ⟨hparse, hagrees⟩
        · exact Or.inl hin
        · cases hdecides with
          | marked hm => exact Or.inr hm
          | refused hrefused =>
            rcases hrefused with hnone | ⟨e, he, hv⟩
            · exact absurd hnone hparse
            · exact absurd hv (hagrees e he)
      simp only [Review.record, if_neg hurl] at hold hready ⊢
      intro other hother hmessage
      rcases List.mem_append.mp hother with hother | hother
      · exact hold other hother hmessage
      · rw [List.mem_singleton.mp hother]
        rcases hnew with hin | hm
        · exact hready _ hin
        · rw [if_pos hm]
          exact List.mem_append_right _ (List.mem_singleton_self _)
    | @raised status exc hstatus hphase hurl _ =>
      simp only [Review.record, if_neg hurl] at hold ⊢
      intro other hother hmessage
      rcases List.mem_append.mp hother with hother | hother
      · exact hold other hother hmessage
      · rw [List.mem_singleton.mp hother] at hmessage
        exact absurd hmessage (Worker.takeError_ne exc)

/-- Where GitHub agrees, the pull request of the worker at this IP is ready. -/
theorem Review.Finalizes.marks (h : Review.Finalizes github w url w')
    (hgithub : ∀ prURL tr, github w prURL tr → prURL ∈ w.ready ∨ Marks prURL tr)
    (hinv : FleetInv task w.fleet) {prURL : String}
    (hdone : w.fleet.DoneAt url.podIP url.taskID prURL) (hurl : prURL ≠ "") : prURL ∈ w'.ready := by
  have hready := h.ready
  obtain ⟨y, hy, hyip, _, status, hstatus, hphase, rfl⟩ := hdone
  cases h with
  | @mk before after x tr reply statuses hrunners hip hend hask =>
    have hx : x ∈ w.fleet.runners := by
      rw [hrunners]
      exact List.mem_append_right _ List.mem_cons_self
    have hsame := hinv.unique hx hy (hip.trans hyip.symm)
    subst hsame
    rcases hgithub _ _ (hask status hstatus hphase hurl) with hin | hm
    · exact hready _ hin
    obtain ⟨_, hreply, hfinalized⟩ := finalizeTask_ends hend
    cases hreply
    have hrecord : ∀ f message, status.pullRequestURL ∈
        (w.record f tr (.ok { status with message := message })).ready := by
      intro f message
      simp only [Review.record, if_neg hurl, if_pos hm]
      exact List.mem_append_right _ (List.mem_singleton_self _)
    cases hfinalized with
    | rejected hno => exact absurd hphase (hno status hstatus)
    | nothing hsome _ hnone =>
      rw [hstatus] at hsome
      cases hsome
      exact absurd hnone hurl
    | marked hsome _ _ _ =>
      rw [hstatus] at hsome
      cases hsome
      exact hrecord _ _
    | raised hsome _ _ _ =>
      rw [hstatus] at hsome
      cases hsome
      exact hrecord _ _

end Willing

/-! ## Every run -/

/-- What the answers to a Reconcile on a running task have established. -/
structure Asked (tr : List (Event ApiOp.Resp)) (w : Review) : Prop where
  done : ∀ ip taskID reply s, ⟨.httpGet ⟨ip, taskID, .status⟩, reply⟩ ∈ tr →
    decodeReply {} WorkerStatus.set reply = .ok s → Successful s →
    w.fleet.DoneAt ip taskID s.pullRequestURL
  marked : ∀ ip taskID reply posted s, ⟨.httpGet ⟨ip, taskID, .status⟩, reply⟩ ∈ tr →
    ⟨.httpPost ⟨ip, taskID, .finalize⟩, posted⟩ ∈ tr →
    decodeReply {} WorkerStatus.set reply = .ok s → Successful s → s.pullRequestURL ≠ "" →
    s.pullRequestURL ∈ w.ready

theorem Asked.moves {tr : List (Event ApiOp.Resp)} (h : Asked tr w)
    (hd : Relation.ReflTransGen Fleet.Drift w.fleet w'.fleet) (hready : ∀ u ∈ w.ready, u ∈ w'.ready) :
    Asked tr w' := by
  refine ⟨?_, ?_⟩
  · intro ip taskID reply s hget hdecode hs
    exact (h.done ip taskID reply s hget hdecode hs).drifts hd
  · intro ip taskID reply posted s hget hpost hdecode hs hurl
    exact hready _ (h.marked ip taskID reply posted s hget hpost hdecode hs hurl)

theorem Review.Drift.ready (h : w.Drift outside w') : ∀ u ∈ w.ready, u ∈ w'.ready := by
  cases h with
  | fleet _ => exact fun _ hu => hu
  | finalize hfinalizes => exact hfinalizes.ready

theorem Review.Reacts.ready {o : ApiOp} (h : w.Reacts outside o w') : ∀ u ∈ w.ready, u ∈ w'.ready := by
  cases o with
  | httpPost url =>
    unfold Review.Reacts at h
    dsimp only at h
    split at h
    · rcases h with ⟨_, rfl⟩ | hfinalizes
      · exact fun _ hu => hu
      · exact hfinalizes.ready
    · rw [h]
      exact fun _ hu => hu
  | _ =>
    cases h
    exact fun _ hu => hu

theorem willing_late {prURL : String} {tr : List (Event FinalizeOp.Resp)}
    (h : willing.late w prURL tr) :
    prURL ∈ w.ready ∨ parsePullURL prURL ≠ none ∧ ∀ e ∈ tr, verdict e ≠ .refuses := h

theorem willing_direct {prURL : String} {tr : List (Event FinalizeOp.Resp)}
    (h : willing.direct w prURL tr) : prURL ∈ w.ready ∨ Marks prURL tr := h

theorem Marks.not_refused {prURL : String} {tr : List (Event FinalizeOp.Resp)} (h : Marks prURL tr) :
    parsePullURL prURL ≠ none ∧ ∀ e ∈ tr, verdict e ≠ .refuses := by
  refine ⟨h.1, fun e he hrefuses => ?_⟩
  rw [h.2 e he] at hrefuses
  cases hrefuses

theorem Review.Reacts.marks {url : WorkerURL} (h : w.Reacts willing (.httpPost url) w')
    (hfinalize : url.endpoint = .finalize) (hinv : FleetInv task w.fleet) {prURL : String}
    (hdone : w.fleet.DoneAt url.podIP url.taskID prURL) (hurl : prURL ≠ "") : prURL ∈ w'.ready := by
  unfold Review.Reacts at h
  simp only [hfinalize, if_true] at h
  rcases h with ⟨hlost, rfl⟩ | hfinalizes
  · obtain ⟨x, hx, hip, _, status, hstatus, _, rfl⟩ := hdone
    exact (hlost x hx hip status hstatus).resolve_left hurl
  · exact hfinalizes.marks (fun _ _ => willing_direct) hinv hdone hurl

theorem Asked.call {tr : List (Event ApiOp.Resp)} (h : Asked tr w) (hinv : FleetInv task w.fleet)
    {a : AgentTaskStatus} (ha : w.fleet.store.versions[w.fleet.store.seen]? = some a)
    (hrunning : a.phase = .running) {o : ApiOp} {r : o.Resp}
    (ho : Justified (task.version w.fleet.store.seen a) tr o)
    (hans : (review task willing).answer w o r w') : Asked (tr ++ [⟨o, r⟩]) w' := by
  have hcall := ho.running hrunning
  obtain ⟨f, hanswer, hreacts⟩ := hans
  have hd := hreacts.drifts
  have hready := hreacts.ready
  have hdone : ∀ {ip taskID prURL}, w.fleet.DoneAt ip taskID prURL → f.DoneAt ip taskID prURL :=
    fun hdone => hdone.congr hanswer.2.2.2
  refine ⟨?_, ?_⟩
  · intro ip taskID reply s hget hdecode hs
    rcases List.mem_append.mp hget with hgot | hnew
    · exact (hdone (h.done ip taskID reply s hgot hdecode hs)).drifts hd
    · cases List.mem_singleton.mp hnew
      exact (hdone (hinv.doneAt hanswer hdecode hs)).drifts hd
  · intro ip taskID reply posted s hget hpost hdecode hs hurl
    rcases List.mem_append.mp hget with hgot | hnew
    · rcases List.mem_append.mp hpost with hposted | hpost
      · exact hready _ (h.marked ip taskID reply posted s hgot hposted hdecode hs hurl)
      · cases List.mem_singleton.mp hpost
        have hinv' : FleetInv task f := hinv.call ha ho.1 hanswer
        exact hreacts.marks rfl hinv' (hdone (h.done ip taskID reply s hgot hdecode hs)) hurl
    · -- a status is asked for before anything is posted
      cases List.mem_singleton.mp hnew
      obtain ⟨pod, htr, _⟩ := hcall
      simp [htr] at hpost

/-- A running task waits for its pull request only once its worker has said that it has
succeeded, with that pull request, and was asked to finalize. -/
theorem FleetInv.handed_over {f : Fleet} (h : FleetInv task f) (hurls : UrlInv f.store) {n : Nat}
    {a b : AgentTaskStatus} (ha : a ∈ f.store.versions) (hrunning : a.phase = .running)
    {tr : List (Event ApiOp.Resp)} (hwrite : RunningWrite (task.version n a) tr b)
    (htold : ∀ e ∈ tr, Told f e) (hwaiting : b.phase = .waitingForPR) :
    ∃ ip reply posted s, ⟨.httpGet ⟨ip, task.name, .status⟩, reply⟩ ∈ tr ∧
      ⟨.httpPost ⟨ip, task.name, .finalize⟩, posted⟩ ∈ tr ∧
      decodeReply {} WorkerStatus.set reply = .ok s ∧ Successful s ∧
      b.pullRequestURL = s.pullRequestURL := by
  cases hwrite with
  | disappeared _ => cases hwaiting
  | podFailed _ => cases hwaiting
  | podSucceeded _ => cases hwaiting
  | @answered pod reply status rest _ _ hip hdecode hreported =>
    cases hreported with
    | incomplete _ => cases hwaiting
    | failed _ => cases hwaiting
    | unfinished _ =>
      change a.phase = .waitingForPR at hwaiting
      rw [hrunning] at hwaiting
      cases hwaiting
    | @succeeded time posted rest hs =>
      refine ⟨pod.podIP, reply, posted, status, by simp, by simp, hdecode, hs, ?_⟩
      change (if status.pullRequestURL ≠ "" then status.pullRequestURL else a.pullRequestURL) =
        status.pullRequestURL
      split
      · rfl
      · rename_i hnone
        by_contra hother
        -- a worker that was given a pull request has it in its status
        obtain ⟨x, hx, hname, htells⟩ := h.answered htold hip hdecode
        obtain ⟨request, exposed, hrequest, hphase, hurl, hunfinished | hended⟩ := htells
        · rw [hphase, hunfinished.phase] at hs
          simp [Worker.TaskPhase.value] at hs
        · have hgiven := h.given hurls hx ha hrunning hname hrequest
          have hsome : request.prURL ≠ "" := by
            rw [hgiven]
            intro hempty
            exact hother (hempty.trans (not_not.mp hnone).symm)
          exact hother (hgiven.symm.trans ((hended.url hsome).symm.trans hurl.symm))

/-- A task that was handed over has its pull request ready, and no message says in vain
that one is. -/
structure ReviewInv (w : Review) : Prop where
  urls : UrlInv w.fleet.store
  persisted : w.fleet.store.Moves fun a b => a.phase = .running → b.phase = .waitingForPR →
    b.pullRequestURL ≠ "" → b.pullRequestURL ∈ w.ready
  recorded : ∀ status ∈ w.finalized, status.message = "PR marked ready for review" →
    status.pullRequestURL ∈ w.ready

theorem ReviewInv.start : ReviewInv Review.start :=
  ⟨UrlInv.start, Versioned.moves_start _ _, fun _ hs => by cases hs⟩

/-- Where a message was given for what was done, the invariant needs the store only. -/
theorem ReviewInv.of_store (h : ReviewInv w) (hurls : UrlInv w'.fleet.store)
    (hversions : w'.fleet.store.versions = w.fleet.store.versions)
    (hready : ∀ u ∈ w.ready, u ∈ w'.ready)
    (hrecorded : ∀ status ∈ w'.finalized, status.message = "PR marked ready for review" →
      status.pullRequestURL ∈ w'.ready) : ReviewInv w' := by
  refine ⟨hurls, ?_, hrecorded⟩
  intro n a b ha hb hrunning hwaiting hurl
  rw [hversions] at ha hb
  exact hready _ (h.persisted n a b ha hb hrunning hwaiting hurl)

theorem Review.Reacts.recorded {o : ApiOp} (h : w.Reacts willing o w')
    (hrecorded : ∀ status ∈ w.finalized, status.message = "PR marked ready for review" →
      status.pullRequestURL ∈ w.ready) :
    ∀ status ∈ w'.finalized, status.message = "PR marked ready for review" →
      status.pullRequestURL ∈ w'.ready := by
  cases o with
  | httpPost url =>
    unfold Review.Reacts at h
    dsimp only at h
    split at h
    · rcases h with ⟨_, rfl⟩ | hfinalizes
      · exact hrecorded
      · refine hfinalizes.recorded ?_ hrecorded
        exact fun _ _ hdirect => (willing_direct hdirect).imp_right Marks.not_refused
    · rw [h]
      exact hrecorded
  | _ =>
    cases h
    exact hrecorded

theorem Review.Drift.recorded (h : w.Drift willing w')
    (hrecorded : ∀ status ∈ w.finalized, status.message = "PR marked ready for review" →
      status.pullRequestURL ∈ w.ready) :
    ∀ status ∈ w'.finalized, status.message = "PR marked ready for review" →
      status.pullRequestURL ∈ w'.ready := by
  cases h with
  | fleet _ => exact hrecorded
  | finalize hfinalizes => exact hfinalizes.recorded (fun _ _ => willing_late) hrecorded

theorem ReviewInv.drift (h : ReviewInv w) (hd : w.Drift willing w') : ReviewInv w' := by
  have hstore := drifts_store hd.drifts
  exact h.of_store (hstore ▸ h.urls) (by rw [hstore]) hd.ready (hd.recorded h.recorded)

theorem ReviewInv.read (h : ReviewInv w) (hinv : FleetInv task w.fleet) {key : NamespacedName}
    {r : Except ApiError AgentTask} (hans : (review task willing).answer w (.getTask key) r w') :
    ReviewInv w' := by
  obtain ⟨f, hanswer, hreacts⟩ := hans
  have hversions : w'.fleet.store.versions = w.fleet.store.versions := by
    rw [drifts_store hreacts.drifts]
    exact (hinv.read hanswer).2
  exact h.of_store (h.urls.congr hversions) hversions hreacts.ready (hreacts.recorded h.recorded)

theorem ReviewInv.call (h : ReviewInv w) (hinv : FleetInv task w.fleet) {a : AgentTaskStatus}
    {tr : List (Event ApiOp.Resp)} (htold : ∀ e ∈ tr, Told w.fleet e)
    (hasked : a.phase = .running → Asked tr w) {o : ApiOp} {r : o.Resp}
    (ha : w.fleet.store.versions[w.fleet.store.seen]? = some a)
    (ho : Justified (task.version w.fleet.store.seen a) tr o)
    (hans : (review task willing).answer w o r w') : ReviewInv w' := by
  obtain ⟨f, hanswer, hreacts⟩ := hans
  have hstore := drifts_store hreacts.drifts
  have hurls : UrlInv w'.fleet.store := by
    rw [hstore]
    exact hinv.call_url h.urls ha htold ho hanswer
  have hrecorded := hreacts.recorded h.recorded
  rcases hanswer.1.cases ha ho.1 with hsame | ⟨b, rfl, _, hcurrent, _, hwritten⟩
  · exact h.of_store hurls (by rw [hstore, hsame]) hreacts.ready hrecorded
  · refine ⟨hurls, ?_, hrecorded⟩
    cases hreacts
    change f.store.Moves _
    rw [hwritten]
    refine h.persisted.write ?_
    intro hrunning hwaiting hurl
    rw [hcurrent] at hrunning
    obtain ⟨s', hs', hreason⟩ := ho.running hrunning
    have hb : b = s' := congrArg AgentTask.status hs'
    rw [← hb] at hreason
    obtain ⟨ip, reply, posted, s, hget, hpost, hdecode, hs, hsame⟩ :=
      hinv.handed_over h.urls (List.mem_of_getElem? ha) hrunning hreason htold hwaiting
    rw [hsame] at hurl ⊢
    exact (hasked hrunning).marked ip task.name reply posted s hget hpost hdecode hs hurl

/-- Where every request gets through that is needed, and GitHub agrees to what is needed, a
task waits for a pull request that is ready for review, and the message that says so of one
is true. -/
theorem ready_for_review {c : Pool Unit ApiOp ApiOp.Resp Outcome Review}
    (hc : Reachable (review task willing) task Review.start c) :
    (∀ n a b, c.world.fleet.store.versions[n]? = some a →
      c.world.fleet.store.versions[n + 1]? = some b → a.phase = .running →
      b.phase = .waitingForPR → b.pullRequestURL ≠ "" → b.pullRequestURL ∈ c.world.ready) ∧
    ∀ status ∈ c.world.finalized, status.message = "PR marked ready for review" →
      status.pullRequestURL ∈ c.world.ready := by
  have h : FleetInv task c.world.fleet ∧ ReviewInv c.world := by
    refine (fleets_review task willing).invariant_held ReviewInv
      (fun a tr w => a.phase = .running → Asked tr w) ?_ ?_ ?_ ?_ rfl ReviewInv.start hc
    · exact fun _ _ _ h hd => h.drift hd
    · exact fun _ _ _ _ h hd hrunning => (h hrunning).moves hd.drifts hd.ready
    · intro w r w' hinv h hans
      refine ⟨h.read hinv hans, fun a _ => ⟨?_, ?_⟩⟩
      · intro _ _ _ _ hget
        cases hget
      · intro _ _ _ _ _ hget
        cases hget
    · intro w o r w' a tr hinv h htold hasked ha ho hans
      exact ⟨h.call hinv htold hasked ha ho hans,
        fun hrunning => (hasked hrunning).call hinv ha hrunning ho hans⟩
  exact ⟨h.2.persisted, h.2.recorded⟩

/-! A pull request that GitHub does not mark. -/

/-- The worker opens its pull request under this URL. -/
def pullURL : String := "https://github.com/org/repo/pull/1"

def pullAnswers : (o : Worker.WorkerOp) → o.Resp
  | .createPull _ _ _ _ _ => .ok ⟨pullURL, 1, "open", true, false⟩
  | o => Worker.demoAnswers 0 o

/-- GitHub's answers, with this one to the mutation. -/
def githubAnswers (response : Worker.HTTPResponse) : (o : FinalizeOp) → o.Resp
  | .getRepo name => .ok ⟨name, "main", none⟩
  | .getPull _ _ => .ok [("node_id", .str "PR_1")]
  | .post _ _ _ _ => .ok response

def agreeing : Worker.HTTPResponse := ⟨200, .ok (.obj [("data", .obj [])])⟩

/-- GraphQL says no with status 200. -/
def refusing : Worker.HTTPResponse := ⟨200, .ok (.obj [("errors", .arr [])])⟩

namespace Review

/-- A finalize request as this worker carries it out. -/
def carriedOut (response : Worker.HTTPResponse) (x : Runner) (taskID : String) :
    List (Event FinalizeOp.Resp) × (Except BulletFarm.Python.Exc (Except HTTPException TaskStatus) ×
      Worker.Registry) × Unit :=
  play (fun _ o => (githubAnswers response o, ())) ((finalizeTask x.token taskID).start x.process.statuses) ()

/-- The worker started last has carried it out. -/
def afterFinalize (response : Worker.HTTPResponse) (w : Review) (taskID : String) : Review :=
  match w.fleet.runners.getLast? with
  | none => w
  | some x =>
    let ended := carriedOut response x taskID
    match ended.2.1.1 with
    | .error _ => w
    | .ok reply => w.record { w.fleet with runners := w.fleet.runners.dropLast ++
        [{ x with process := { x.process with statuses := ended.2.1.2 } }] } ended.1 reply

def respond (response : Worker.HTTPResponse) (w : Review) (o : ApiOp) : o.Resp × Review :=
  let answered := w.fleet.respond skilledTask o
  let w := { w with fleet := answered.2 }
  (answered.1, match o with
    | .httpPost url => if url.endpoint = .finalize then w.afterFinalize response url.taskID else w
    | _ => w)

/-- A finalize request is for the worker started last, and is answered like this. -/
def Receives (response : Worker.HTTPResponse) (cond : String → List (Event FinalizeOp.Resp) → Prop) :
    Review → (o : ApiOp) → o.Resp → Review → Prop
  | w, .httpPost url, _, _ => url.endpoint = .finalize →
    ∃ x ∈ w.fleet.runners.getLast?, x.ip = url.podIP ∧ ∀ status ∈ x.process.statuses url.taskID,
      cond status.pullRequestURL (carriedOut response x url.taskID).1
  | _, _, _, _ => True

instance {response : Worker.HTTPResponse} {cond : String → List (Event FinalizeOp.Resp) → Prop}
    [∀ prURL tr, Decidable (cond prURL tr)] (w : Review) (o : ApiOp) (r : o.Resp) (w' : Review) :
    Decidable (Receives response cond w o r w') :=
  match o with
  | .httpPost url => inferInstanceAs (Decidable (url.endpoint = .finalize →
      ∃ x ∈ w.fleet.runners.getLast?, x.ip = url.podIP ∧
        ∀ status ∈ x.process.statuses url.taskID, cond status.pullRequestURL _))
  | .getTask _ | .updateTaskStatus _ | .getAgent _ | .listTasks _ | .setControllerReference _ _
  | .getPod _ | .createPod _ | .deletePod _ | .updateAgentStatus _ | .httpGet _ | .now =>
    isTrue trivial

theorem answer_respond {response : Worker.HTTPResponse}
    {cond : String → List (Event FinalizeOp.Resp) → Prop} {o : ApiOp}
    (hcond : ∀ w prURL tr, cond prURL tr → outside.direct w prURL tr) {r : o.Resp}
    (h : Receives response cond w o r w') :
    (review skilledTask outside).answer w o (w.respond response o).1 (w.respond response o).2 := by
  refine ⟨_, Fleet.answer_respond skilledTask w.fleet o, ?_⟩
  cases o with
  | httpPost url =>
    unfold Reacts respond
    dsimp only
    split
    · rename_i hfinalize
      right
      obtain ⟨x, hlast, hip, hall⟩ := h hfinalize
      have hrunners : (w.fleet.respond skilledTask (.httpPost url)).2.runners = w.fleet.runners :=
        Fleet.respond_runners _ _ _
      have hends : (finalizeTask x.token url.taskID).Ends x.process.statuses
          (carriedOut response x url.taskID).1 (carriedOut response x url.taskID).2.1.1
          (carriedOut response x url.taskID).2.1.2 :=
        runs_play _ _ ()
      obtain ⟨reply, hreply, _⟩ := finalizeTask_ends hends
      rw [hreply] at hends
      unfold afterFinalize
      simp only [hrunners, Option.mem_def.mp hlast, hreply]
      refine .mk ?_ hip hends ?_
      · exact hrunners.trans (List.dropLast_append_getLast? x hlast).symm
      · exact fun status hstatus _ _ => hcond _ _ _ (hall status hstatus)
    · rfl
  | _ => rfl

theorem executes_respond {α : Type} {response : Worker.HTTPResponse}
    {cond : String → List (Event FinalizeOp.Resp) → Prop}
    (hcond : ∀ w prURL tr, cond prURL tr → outside.direct w prURL tr)
    {p : Program ApiOp ApiOp.Resp α} (hp : PlaysWithin (Receives response cond) (respond response) p w) :
    ∃ tr out, Executes (review skilledTask outside) p w tr out (play (respond response) p w).2.2 :=
  ⟨_, _, Executes.of_playsWithin (fun _ _ h => answer_respond hcond h) hp⟩

/-- Not a finalize request. -/
def Apart : ApiOp → Prop
  | .httpPost url => url.endpoint ≠ .finalize
  | _ => True

instance : DecidablePred Apart
  | .httpPost url => inferInstanceAs (Decidable (url.endpoint ≠ .finalize))
  | .getTask _ | .updateTaskStatus _ | .getAgent _ | .listTasks _ | .setControllerReference _ _
  | .getPod _ | .createPod _ | .deletePod _ | .updateAgentStatus _ | .httpGet _ | .now =>
    isTrue trivial

theorem answer_apart {f f' : Fleet} {o : ApiOp} {r : o.Resp} (ho : Apart o)
    (hans : (System.fleet task).answer f o r f') (ready : List String) (finalized : List TaskStatus) :
    (review task outside).answer ⟨f, ready, finalized⟩ o r ⟨f', ready, finalized⟩ := by
  refine ⟨f', hans, ?_⟩
  cases o with
  | httpPost url =>
    unfold Reacts
    dsimp only
    rw [if_neg ho]
  | _ => rfl

theorem executes_apart {α : Type} {p : Program ApiOp ApiOp.Resp α} {f : Fleet}
    (hp : PlaysWithin (fun _ o _ _ => Apart o) (Fleet.respond task) p f) (ready : List String)
    (finalized : List TaskStatus) :
    Executes (review task outside) p ⟨f, ready, finalized⟩ (play (Fleet.respond task) p f).1
      (play (Fleet.respond task) p f).2.1 ⟨(play (Fleet.respond task) p f).2.2, ready, finalized⟩ := by
  induction p generalizing f with
  | ret a => exact .ret a _
  | call o next ih =>
    exact .call (answer_apart hp.1 (Fleet.answer_respond task f o) ready finalized) (ih _ hp.2)

end Review

/-- The worker has opened its pull request and come to its end. -/
def reviewFleet : Fleet := workerUp.finished pullAnswers

def reviewTask : AgentTask := skilledTask.version 2 reviewFleet.store.current

def reviewPod : Pod := (reviewFleet.pods.find "worker-t").getD (demoPod .pending)

def reviewStatus : TaskStatus :=
  ((reviewFleet.runners.find? fun x => x.ip = "10.0.0.1").bind fun x =>
    x.process.statuses "t").getD ⟨"t", .pending, 0, "", "", false, "", ""⟩

/-- The operator has asked for its status. -/
def reviewPolled : Fleet :=
  let f := (reviewFleet.respond skilledTask (.getTask skilledTask.key)).2
  ((f.respond skilledTask (.getPod reviewTask.podKey)).2.respond skilledTask
    (.httpGet ⟨reviewPod.podIP, reviewTask.name, .status⟩)).2

/-- And has handed the task over. -/
def handedOver (response : Worker.HTTPResponse) : Review :=
  (play (Review.respond response)
    (handleWorkerStatus reviewTask reviewPod.podIP (reported reviewStatus)) ⟨reviewPolled, [], []⟩).2.2

theorem reviewFleet_proceeds :
    Relation.ReflTransGen Fleet.Proceeds (completionStep (completionStep Fleet.start)) reviewFleet :=
  (Fleet.up_proceeds (by decide +kernel)).trans (Fleet.finished_proceeds pullAnswers workerUp)

/-- The reads of a Reconcile on a running task. -/
def Reads : ApiOp → Prop
  | .getTask _ | .getPod _ => True
  | .httpGet url => url.endpoint = .status
  | _ => False

/-- The Reconcile that hears of the end of the run, in a world with a fleet in it. -/
theorem executes_report_review {W : Type} {env : Environment ApiOp ApiOp.Resp W} (embed : Fleet → W)
    (hanswer : ∀ f o, Reads o → env.answer (embed f) o (f.respond skilledTask o).1
      (embed (f.respond skilledTask o).2)) {w' : W}
    (hlast : ∃ tr out, Executes env (handleWorkerStatus reviewTask reviewPod.podIP (reported reviewStatus))
      (embed reviewPolled) tr out w') :
    ∃ tr out, Executes env (reconcile skilledTask.key) (embed reviewFleet) tr out w' := by
  have hpolled : (reviewFleet.respond skilledTask (.getTask skilledTask.key)).1 = .ok reviewTask ∧
      ((reviewFleet.respond skilledTask (.getTask skilledTask.key)).2.respond skilledTask
        (.getPod reviewTask.podKey)).1 = .ok reviewPod ∧
      ((((reviewFleet.respond skilledTask (.getTask skilledTask.key)).2.respond skilledTask
        (.getPod reviewTask.podKey)).2.runners.find? fun x => x.ip = reviewPod.podIP).bind fun x =>
          x.process.statuses reviewTask.name) = some reviewStatus ∧
      reviewTask.status.phase = .running ∧ reviewPod.phase = .running ∧ reviewPod.podIP ≠ "" ∧
      0 ≤ reviewStatus.progress ∧ reviewStatus.progress ≤ 100 := by
    simp only [reviewTask, reviewPod, reviewStatus, reviewFleet, workerUp_eq]
    exact ⟨by decide +kernel, rfl, by decide +kernel⟩
  obtain ⟨htask, hpod, hstatus, hrunning, hphase, hip, hprogress⟩ := hpolled
  have hreply : (((reviewFleet.respond skilledTask (.getTask skilledTask.key)).2.respond skilledTask
      (.getPod reviewTask.podKey)).2.respond skilledTask
        (.httpGet ⟨reviewPod.podIP, reviewTask.name, .status⟩)).1 = statusReply reviewStatus :=
    Fleet.respond_status rfl hstatus
  obtain ⟨_, _, hlast⟩ := hlast
  exact ⟨_, _, executes_report (htask ▸ hanswer _ (.getTask _) trivial) hrunning
    (hpod ▸ hanswer _ (.getPod _) trivial) hphase hip (hreply ▸ hanswer _ (.httpGet _) rfl)
    (decode_reported hprogress) hlast⟩

theorem handedOver_reachable {response : Worker.HTTPResponse}
    (hlast : ∃ tr out, Executes (review skilledTask outside)
      (handleWorkerStatus reviewTask reviewPod.podIP (reported reviewStatus)) ⟨reviewPolled, [], []⟩ tr
        out (handedOver response)) :
    Reachable (review skilledTask outside) skilledTask Review.start (Pool.idle (handedOver response)) := by
  have hapart : ∀ {f : Fleet}, PlaysWithin (fun _ o _ _ => Review.Apart o) (Fleet.respond skilledTask)
      (reconcile skilledTask.key) f → ∃ tr out, Executes (review skilledTask outside)
        (reconcile skilledTask.key) ⟨f, [], []⟩ tr out ⟨completionStep f, [], []⟩ :=
    fun h => ⟨_, _, Review.executes_apart h [] []⟩
  obtain ⟨_, _, hfirst⟩ := hapart (f := Fleet.start) (by decide)
  obtain ⟨_, _, hsecond⟩ := hapart (f := completionStep Fleet.start) (by decide)
  have hworks : Relation.ReflTransGen (review skilledTask outside).drift
      ⟨completionStep (completionStep Fleet.start), [], []⟩ ⟨reviewFleet, [], []⟩ :=
    reviewFleet_proceeds.lift (fun f => (⟨f, [], []⟩ : Review)) fun _ _ h => .fleet h
  have hreads : ∀ f o, Reads o → (review skilledTask outside).answer ⟨f, [], []⟩ o
      (f.respond skilledTask o).1 ⟨(f.respond skilledTask o).2, [], []⟩ := by
    intro f o ho
    refine Review.answer_apart ?_ (Fleet.answer_respond skilledTask f o) [] []
    cases o <;> trivial
  obtain ⟨_, _, hthird⟩ := executes_report_review (fun f => (⟨f, [], []⟩ : Review)) hreads hlast
  have hstart : Reachable (review skilledTask outside) skilledTask Review.start
      (Pool.idle ⟨Fleet.start, [], []⟩) := .refl
  have hup := ((hstart.execute (i := ()) hfirst).execute (i := ()) hsecond).drifts hworks
  exact hup.execute (i := ()) hthird

/-- GitHub refuses: the task waits for its pull request, and the worker says that it is ready. -/
theorem handed_over_as_draft :
    Reachable (review skilledTask anything) skilledTask Review.start (Pool.idle (handedOver refusing)) ∧
      (∃ n a b, (handedOver refusing).fleet.store.versions[n]? = some a ∧
        (handedOver refusing).fleet.store.versions[n + 1]? = some b ∧ a.phase = .running ∧
        b.phase = .waitingForPR ∧ b.pullRequestURL ≠ "" ∧
        b.pullRequestURL ∉ (handedOver refusing).ready) ∧
      ∃ status ∈ (handedOver refusing).finalized, status.message = "PR marked ready for review" ∧
        status.pullRequestURL ∉ (handedOver refusing).ready := by
  have hlast : ∃ tr out, Executes (review skilledTask anything)
      (handleWorkerStatus reviewTask reviewPod.podIP (reported reviewStatus)) ⟨reviewPolled, [], []⟩ tr
        out (handedOver refusing) :=
    Review.executes_respond (fun _ _ _ (_ : True) => trivial) (by decide +kernel)
  have hrun : (handedOver refusing).ready = [] ∧
      ((handedOver refusing).fleet.store.versions[2]?).map AgentTaskStatus.phase = some .running ∧
      ((handedOver refusing).fleet.store.versions[3]?).map (fun b => (b.phase, b.pullRequestURL)) =
        some (.waitingForPR, pullURL) ∧
      ∃ status ∈ (handedOver refusing).finalized, status.message = "PR marked ready for review" := by
    decide +kernel
  obtain ⟨hready, hbefore, hafter, status, hstatus, hmessage⟩ := hrun
  obtain ⟨a, ha, hrunning⟩ := Option.map_eq_some_iff.mp hbefore
  obtain ⟨b, hb, hwaits⟩ := Option.map_eq_some_iff.mp hafter
  obtain ⟨hwaiting, hurl⟩ := Prod.mk.inj hwaits
  refine ⟨handedOver_reachable hlast, ⟨2, a, b, ha, hb, hrunning, hwaiting, ?_, ?_⟩,
    status, hstatus, hmessage, ?_⟩
  · rw [hurl]
    decide
  · simp [hready]
  · simp [hready]

/-- GitHub agrees. -/
theorem ready_for_review_demo :
    pullURL ∈ (handedOver agreeing).ready ∧
      (handedOver agreeing).fleet.store.current.phase = .waitingForPR := by
  have hlast : ∃ tr out, Executes (review skilledTask willing)
      (handleWorkerStatus reviewTask reviewPod.podIP (reported reviewStatus)) ⟨reviewPolled, [], []⟩ tr
        out (handedOver agreeing) :=
    Review.executes_respond (fun _ prURL tr (h : Marks prURL tr) => Or.inr h) (by decide +kernel)
  have hrun : ((handedOver agreeing).fleet.store.versions[2]?).map AgentTaskStatus.phase = some .running ∧
      ((handedOver agreeing).fleet.store.versions[3]?).map (fun b => (b.phase, b.pullRequestURL)) =
        some (.waitingForPR, pullURL) ∧
      (handedOver agreeing).fleet.store.current.phase = .waitingForPR := by
    decide +kernel
  obtain ⟨hbefore, hafter, hcurrent⟩ := hrun
  obtain ⟨a, ha, hrunning⟩ := Option.map_eq_some_iff.mp hbefore
  obtain ⟨b, hb, hwaits⟩ := Option.map_eq_some_iff.mp hafter
  obtain ⟨hwaiting, hurl⟩ := Prod.mk.inj hwaits
  have hready := (ready_for_review (handedOver_reachable hlast)).1
  rw [Pool.idle_world] at hready
  refine ⟨?_, hcurrent⟩
  rw [← hurl]
  apply hready 2 a b ha hb hrunning hwaiting
  rw [hurl]
  decide

end BulletFarm.System
