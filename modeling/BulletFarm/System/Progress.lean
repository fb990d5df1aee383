import BulletFarm.Operator.Lifetime
import BulletFarm.System.Completion
import BulletFarm.Worker.Course

/-!
# The progress of an attempt

The percentages a run reports never go down, and the registry keeps the last one. So the
progress the operator persists of an attempt does not go down either while it is Running, as long
as no pod is started twice, once the worker has been heard of: until then it is the operator's
own 5.
-/

namespace BulletFarm.Worker

open Interaction

set_option autoImplicit false

variable {githubToken : String} {request : TaskRequest} {m : Course}

/-! ## One worker -/

/-- Only a report changes the percentage. -/
theorem Course.next_percent (o : WorkerOp) (r : o.Resp) :
    ((course githubToken request).next m o r).percent =
      match o with
      | .progress _ percent _ => percent
      | _ => m.percent := by
  cases o with
  | run cmd cwd =>
    cases r with
    | error exc => rfl
    | ok p =>
      change (if p.returncode = 0 ∧ cmd ∈ m.stage.steps githubToken request then _ else m).percent = _
      split <;> rfl
  | invoke _ _ | getRepo _ | createPull _ _ _ _ _ => cases r <;> rfl
  | _ => rfl

theorem course_percent_le {tr : List (Event WorkerOp.Resp)}
    (h : (course githubToken request).Accepts m tr) :
    m.percent ≤ ((course githubToken request).after m tr).percent := by
  induction tr generalizing m with
  | nil => exact Int.le_refl _
  | cons e tr ih =>
    obtain ⟨hallows, hrest⟩ := h
    refine Int.le_trans ?_ (ih hrest)
    rw [Course.next_percent]
    obtain ⟨o, r⟩ := e
    cases o with
    | progress taskID percent message => exact hallows.2
    | _ => exact Int.le_refl _

theorem Registry.updateProgress_progress {statuses : Registry} {taskID message : String}
    {percent : Int} {status : TaskStatus}
    (h : statuses.updateProgress taskID percent message taskID = some status) :
    status.progress = min percent 99 := by
  unfold updateProgress at h
  cases hold : statuses taskID with
  | none => simp [hold] at h
  | some old =>
    simp only [hold, set_same, Option.some.injEq] at h
    rw [← h]

namespace Process
variable {p p' : Process}

/-- The last percentage of the run. -/
def percent (githubToken : String) (request : TaskRequest) (p : Process) : Int :=
  ((course githubToken request).after .start p.made).percent

theorem Reached.accepted (h : Reached githubToken (some request) p) :
    (course githubToken request).Accepts .start p.made := by
  obtain ⟨q, hq⟩ := h.inv.made
  obtain ⟨rest, result, hrun⟩ := hq.completes WorkerOp.benign
  exact ((course githubToken request).accepts_append.mp (runTask_keeps_course hrun)).1

theorem Step.made (h : Step p p') : p.made <+: p'.made := by
  cases h with
  | call r _ => exact ⟨_, rfl⟩
  | finish _ => exact List.prefix_rfl
  | finalize _ _ _ => exact List.prefix_rfl

theorem Reached.percent_le (h : Reached githubToken (some request) p)
    (hsteps : Relation.ReflTransGen Step p p') :
    p.percent githubToken request ≤ p'.percent githubToken request := by
  have hmade : p.made <+: p'.made := by
    clear h
    induction hsteps with
    | refl => exact List.prefix_rfl
    | tail _ hstep ih => exact ih.trans hstep.made
  have haccepted : Reached githubToken (some request) p' := Relation.ReflTransGen.trans h hsteps
  obtain ⟨rest, hrest⟩ := hmade
  have hafter := haccepted.accepted
  unfold percent
  rw [← hrest] at hafter ⊢
  rw [Monitor.after_append]
  exact course_percent_le ((course githubToken request).accepts_append.mp hafter).2

/-- What the registry shows of a run that is not over is its last percentage, at most 99. -/
theorem Reached.progress_eq (h : Reached githubToken (some request) p) : ∀ {id status},
    p.statuses id = some status → status.phase = .running →
      status.progress = min (p.percent githubToken request) 99 := by
  induction h with
  | refl =>
    intro id status hs _
    rcases Registry.set_eq_some hs with ⟨_, rfl⟩ | hs
    · rfl
    · cases hs
  | tail hreached hstep ih =>
    intro id status hs hphase
    have hinv := Reached.inv hreached
    have hid := ((hinv.step hstep).exposed id status hs).1
    subst hid
    cases hstep with
    | @call request' o next r hrunning =>
      obtain ⟨rfl, hq⟩ := hinv.running _ _ hrunning
      obtain ⟨rest, ⟨result, s'⟩, hrun⟩ := (hq.next r).completes WorkerOp.benign
      have htells : Tells request'.taskID o := runTask_tells hrun ⟨o, r⟩ (by simp)
      unfold percent at ih ⊢
      rw [Monitor.after_append]
      change _ = min ((course githubToken request').next _ o r).percent 99
      rw [Course.next_percent]
      cases o with
      | progress taskID percent message =>
        obtain rfl : taskID = request'.taskID := htells.1
        exact Registry.updateProgress_progress hs
      | _ => exact ih hs hphase
    | @finish request' result s' hrunning =>
      obtain ⟨rfl, hq⟩ := hinv.running _ _ hrunning
      cases result with
      | ok left =>
        rcases Registry.set_eq_some hs with ⟨_, rfl⟩ | hs
        · have hconcluded := runTask_concluded hq.runs
          simp [Concluded, hphase] at hconcluded
        · exact ih hs hphase
      | error exc =>
        rcases Registry.set_eq_some hs with ⟨_, rfl⟩ | hs
        · cases hphase
        · exact ih hs hphase
    | @finalize taskID old message hold hsucceeded =>
      rcases Registry.set_eq_some hs with ⟨_, rfl⟩ | hs
      · rw [show old.phase = .running from hphase] at hsucceeded
        cases hsucceeded
      · exact ih hs hphase

/-- So many more calls of the run, with these answers. -/
def advance (answer : (o : WorkerOp) → o.Resp) : Nat → Process → Process
  | 0, p => p
  | n + 1, p =>
    match p.running with
    | some (request, .call o next) => advance answer n
        ⟨p.statuses.afterCall o, p.made ++ [⟨o, answer o⟩], some (request, next (answer o))⟩
    | _ => p

theorem advance_steps (answer : (o : WorkerOp) → o.Resp) (n : Nat) (p : Process) :
    Relation.ReflTransGen Step p (p.advance answer n) := by
  induction n generalizing p with
  | zero => exact .refl
  | succ n ih =>
    unfold advance
    split
    · next request o next hrunning => exact .head (.call (answer o) hrunning) (ih _)
    · exact .refl

end Process

end BulletFarm.Worker

namespace BulletFarm.System

open Interaction Program Operator
open Worker (Process TaskStatus getTaskStatus_eq_ok startupRequest)

set_option autoImplicit false

variable {task : AgentTask} {f f' : Fleet} {x x' : Runner} {k : Int}

/-! ## What a worker has reported -/

/-- The run in this pod has reported so much. -/
def Runner.HasReported (x : Runner) (k : Int) : Prop :=
  ∃ request, startupRequest x.pod = some request ∧ k ≤ min (x.process.percent x.token request) 99

/-- No two workers were started in pods of one name. -/
def Fleet.OnceEach (f : Fleet) : Prop :=
  ∀ x ∈ f.runners, ∀ y ∈ f.runners, x.pod.name = y.pod.name → x.ip = y.ip

theorem Runner.HasReported.later (h : x.HasReported k)
    (hreached : Process.Reached x.token (startupRequest x.pod) x.process) (hlater : x.Later x') :
    x'.HasReported k := by
  obtain ⟨request, hrequest, hle⟩ := h
  rw [hrequest] at hreached
  have hpercent := hreached.percent_le hlater.process
  refine ⟨request, by rw [hlater.pod]; exact hrequest, ?_⟩
  rw [hlater.token]
  omega

theorem Fleet.OnceEach.earlier (h : f'.OnceEach) (hd : f.Drift f') : f.OnceEach := by
  intro x hx y hy hname
  obtain ⟨x', hx', hlater⟩ := hd.later hx
  obtain ⟨y', hy', hlater'⟩ := hd.later hy
  have hip := h x' hx' y' hy' (by rw [hlater.pod, hlater'.pod, hname])
  rwa [hlater.ip, hlater'.ip] at hip

theorem Fleet.OnceEach.congr (h : f'.OnceEach) (hrunners : f'.runners = f.runners) : f.OnceEach := by
  unfold Fleet.OnceEach at *
  rwa [hrunners] at h

/-- The operator's own first entry, or what the worker of the attempt has reported. -/
def Backed (f : Fleet) (a : AgentTaskStatus) : Prop :=
  a.progress = 5 ∨ ∃ x ∈ f.runners, x.pod.name = a.workerPod ∧ x.HasReported a.progress

/-- So far the progress of an attempt has not gone down while it was Running, its first entry
apart. -/
def Ascending (s : Versioned AgentTaskStatus) : Prop :=
  ∀ (i j : Nat) (a b : AgentTaskStatus), i ≤ j → s.versions[i]? = some a → s.versions[j]? = some b →
    a.phase = .running → b.phase = .running → a.workerPod = b.workerPod →
    a.progress = 5 ∨ a.progress ≤ b.progress

structure Progressing (f : Fleet) : Prop where
  backed : ∀ a ∈ f.store.versions, a.phase = .running → Backed f a
  ascending : Ascending f.store

/-- What an answer has established about the progress: a worker has reported what it says, and
as long as nothing is written that is no less than anything persisted of its attempt. -/
def Heard (f : Fleet) : Event ApiOp.Resp → Prop
  | ⟨.httpGet url, reply⟩ => url.endpoint = .status → ∀ s : WorkerStatus,
    decodeReply {} WorkerStatus.set reply = .ok s →
    s.phase ∉ ["Succeeded", "Completed", "Incomplete", "Failed"] →
    ∃ x ∈ f.runners, x.ip = url.podIP ∧ x.HasReported s.progress ∧
      (f.store.Accepts f.store.seen → ∀ a ∈ f.store.versions, a.phase = .running →
        a.workerPod = x.pod.name → a.progress = 5 ∨ a.progress ≤ s.progress)
  | _ => True

theorem Backed.mono {a : AgentTaskStatus} (h : Backed f a)
    (hrunners : ∀ x ∈ f.runners, x.HasReported a.progress →
      ∃ x' ∈ f'.runners, x'.pod = x.pod ∧ x'.HasReported a.progress) : Backed f' a := by
  rcases h with hfirst | ⟨x, hx, hname, hreported⟩
  · exact Or.inl hfirst
  · obtain ⟨x', hx', hpod, hreported'⟩ := hrunners x hx hreported
    exact Or.inr ⟨x', hx', by rw [hpod, hname], hreported'⟩

theorem FleetInv.reported_later (h : FleetInv task f) (hd : f.Drift f') (hx : x ∈ f.runners)
    (hreported : x.HasReported k) : ∃ x' ∈ f'.runners, x.Later x' ∧ x'.HasReported k := by
  obtain ⟨x', hx', hlater⟩ := hd.later hx
  exact ⟨x', hx', hlater, hreported.later (h.runners x hx).2 hlater⟩

theorem Progressing.drift (h : Progressing f) (hinv : FleetInv task f) (hd : f.Drift f') :
    Progressing f' := by
  have hstore := hd.store_eq
  refine ⟨fun a ha hrunning => ?_, by rw [hstore]; exact h.ascending⟩
  rw [hstore] at ha
  apply (h.backed a ha hrunning).mono
  intro x hx hreported
  obtain ⟨x', hx', hlater, hreported'⟩ := hinv.reported_later hd hx hreported
  exact ⟨x', hx', hlater.pod, hreported'⟩

theorem Heard.drift {e : Event ApiOp.Resp} (h : Heard f e) (hinv : FleetInv task f)
    (hd : f.Drift f') : Heard f' e := by
  obtain ⟨o, r⟩ := e
  cases o with
  | httpGet url =>
    intro hurl s hdecode hno
    obtain ⟨x, hx, hip, hreported, hbefore⟩ := h hurl s hdecode hno
    obtain ⟨x', hx', hlater, hreported'⟩ := hinv.reported_later hd hx hreported
    refine ⟨x', hx', hlater.ip.trans hip, hreported', ?_⟩
    rw [hd.store_eq, hlater.pod]
    exact hbefore
  | _ => trivial

/-! ## One call -/

/-- What the operator hears is what the worker has reported last. -/
theorem FleetInv.heard (hinv : FleetInv task f) (h : Progressing f) (honce : f.OnceEach) {o : ApiOp}
    {r : o.Resp} (hans : (fleet task).answer f o r f') : Heard f' ⟨o, r⟩ := by
  obtain ⟨hserve, _, hhears, hrunners⟩ := hans
  cases o with
  | httpGet url =>
    have hstore : f'.store = f.store := hserve
    intro hurl s hdecode hno
    obtain ⟨x, hx, hip, status, hstatus, rfl⟩ := hhears hurl s hdecode
    have hexposed := getTaskStatus_eq_ok.mp hstatus
    obtain ⟨request, hrequest, _, hunfinished | hended⟩ := hinv.exposed hx hexposed
    · have hreached := (hinv.runners x hx).2
      rw [hrequest] at hreached
      have hbound := hreached.progress _ _ hexposed hunfinished.phase
      have hprogress := hreached.progress_eq hexposed hunfinished.phase
      rw [decode_reported ⟨hbound.1, by omega⟩] at hdecode
      cases hdecode
      rw [hrunners, hstore]
      refine ⟨x, hx, hip, ⟨request, hrequest, Int.le_of_eq hprogress⟩, fun _ a ha hrunning hname => ?_⟩
      rcases h.backed a ha hrunning with hfirst | ⟨y, hy, hyname, request', hrequest', hle⟩
      · exact Or.inl hfirst
      · -- Only one worker was started in a pod of this name.
        have hsame := hinv.unique hy hx (honce y hy x hx (hyname.trans hname))
        subst hsame
        rw [hrequest] at hrequest'
        cases hrequest'
        exact Or.inr (Int.le_trans hle (Int.le_of_eq hprogress.symm))
    · have hconcluded := hended.concluded
      rw [(decode_statusReply hdecode).1] at hno
      simp only [Worker.Concluded, List.mem_cons, List.not_mem_nil, or_false] at hconcluded
      rcases hconcluded with hc | hc | hc <;> simp [hc, Worker.TaskPhase.value] at hno
  | _ => trivial

theorem Ascending.write {s : Versioned AgentTaskStatus} {b : AgentTaskStatus} (h : Ascending s)
    (hb : b.phase = .running → ∀ a ∈ s.versions, a.phase = .running → a.workerPod = b.workerPod →
      a.progress = 5 ∨ a.progress ≤ b.progress) : Ascending (s.write b) := by
  rcases s.write_versions b with hv | hv
  · unfold Ascending
    rw [hv]
    exact h
  · intro i j c d hij hc hd hcrunning hdrunning hpod
    rw [hv] at hc hd
    by_cases hj : j < s.versions.length
    · rw [List.getElem?_append_left hj] at hd
      rw [List.getElem?_append_left (by omega)] at hc
      exact h i j c d hij hc hd hcrunning hdrunning hpod
    · rw [List.getElem?_append_right (by omega)] at hd
      obtain rfl : d = b := List.mem_singleton.mp (List.mem_of_getElem? hd)
      rcases List.mem_append.mp (List.mem_of_getElem? hc) with hc | hc
      · exact hb hdrunning c hc hcrunning hpod
      · rw [List.mem_singleton.mp hc]
        exact Or.inr (Int.le_refl _)

/-- A write that leaves the task running, over a running task: the worker was heard of. -/
theorem FleetInv.polled (hinv : FleetInv task f) {n : Nat} {a b : AgentTaskStatus}
    {tr : List (Event ApiOp.Resp)} (htold : ∀ e ∈ tr, Told f e) (hheard : ∀ e ∈ tr, Heard f e)
    (hwrite : RunningWrite (task.version n a) tr b) (hb : b.phase = .running) :
    b.workerPod = a.workerPod ∧ ∃ x ∈ f.runners, x.pod.name = b.workerPod ∧ x.HasReported b.progress ∧
      (f.store.Accepts f.store.seen → ∀ c ∈ f.store.versions, c.phase = .running →
        c.workerPod = b.workerPod → c.progress = 5 ∨ c.progress ≤ b.progress) := by
  cases hwrite with
  | disappeared _ => cases hb
  | podFailed _ => cases hb
  | podSucceeded _ => cases hb
  | @answered pod reply status rest _ _ hip hdecode hreported =>
    cases hreported with
    | succeeded _ => cases hb
    | incomplete _ => cases hb
    | failed _ => cases hb
    | unfinished hno =>
      obtain ⟨y, hy, hname, hyip⟩ := htold _ List.mem_cons_self hip
      obtain ⟨x, hx, hxip, hreported, hbefore⟩ :=
        hheard _ (List.mem_cons_of_mem _ List.mem_cons_self) rfl status hdecode hno
      have hsame := hinv.unique hx hy (hxip.trans hyip.symm)
      subst hsame
      refine ⟨rfl, x, hx, hname, hreported, fun hacc c hc hrunning hpod => ?_⟩
      exact hbefore hacc c hc hrunning (hpod.trans hname.symm)

/-- A write that leaves the task running. -/
theorem FleetInv.running_after (hinv : FleetInv task f) {a b : AgentTaskStatus}
    {tr : List (Event ApiOp.Resp)} (ha : f.store.versions[f.store.seen]? = some a)
    (htold : ∀ e ∈ tr, Told f e) (hheard : ∀ e ∈ tr, Heard f e)
    (ho : Justified (task.version f.store.seen a) tr (.updateTaskStatus (task.version f.store.seen b)))
    (hacc : f.store.Accepts f.store.seen) (hb : b.phase = .running) :
    Backed f b ∧ ∀ c ∈ f.store.versions, c.phase = .running → c.workerPod = b.workerPod →
      c.progress = 5 ∨ c.progress ≤ b.progress := by
  obtain ⟨b', hb', hmay⟩ := ho.1
  obtain rfl : b = b' := congrArg AgentTask.status hb'
  have hmem := List.mem_of_getElem? ha
  by_cases hrunning : a.phase = .running
  · obtain ⟨s', hs', hwrite⟩ := ho.running hrunning
    obtain rfl : b = s' := congrArg AgentTask.status hs'
    obtain ⟨_, x, hx, hname, hreported, hbefore⟩ := hinv.polled htold hheard hwrite hb
    exact ⟨Or.inr ⟨x, hx, hname, hreported⟩, hbefore hacc⟩
  · have hmoves := (hmay.statusMove (hinv.lifecycle.known hmem)).phase
    rw [hb, version_status] at hmoves
    have hpending : a.phase = .pending := by
      rcases hmoves with hsame | hmove
      · exact absurd hsame.symm hrunning
      · generalize a.phase = p at hmove
        cases hmove
        rfl
    simp only [MayWrite, version_status, hpending] at hmay
    rcases hmay with ⟨message, rfl⟩ | ⟨time, message, rfl⟩
    · cases hb
    · refine ⟨Or.inl rfl, fun c hc hcrunning hpod => ?_⟩
      -- An earlier attempt of the same pod would be one with the same retry count.
      obtain ⟨i, hi⟩ := List.getElem?_of_mem hc
      have hlt := hinv.lifecycle.pending_after (i := i) (j := f.store.seen) ?_ hi ha
        (by simp [hcrunning]) hpending
      · have hname : attemptPod task c = attemptPod task a :=
          (hinv.attended c hc (by simp [hcrunning])).symm.trans hpod
        have hsame := workerPodName_injective (hinv.lifecycle.retryCount hc).1
          (hinv.lifecycle.retryCount hmem).1 hname
        omega
      · have hlength := (List.getElem?_eq_some_iff.mp hi).1
        unfold Versioned.Accepts at hacc
        omega

theorem Progressing.call (h : Progressing f) (hinv : FleetInv task f) {a : AgentTaskStatus}
    {tr : List (Event ApiOp.Resp)} {o : ApiOp} {r : o.Resp}
    (ha : f.store.versions[f.store.seen]? = some a) (htold : ∀ e ∈ tr, Told f e)
    (hheard : ∀ e ∈ tr, Heard f e) (ho : Justified (task.version f.store.seen a) tr o)
    (hans : (fleet task).answer f o r f') : Progressing f' := by
  obtain ⟨hserve, _, _, hrunners⟩ := hans
  have hbacked : ∀ {c : AgentTaskStatus}, Backed f c → Backed f' c :=
    fun hc => hc.mono fun x hx hreported => ⟨x, hrunners ▸ hx, rfl, hreported⟩
  rcases hserve.cases ha ho.1 with hsame | ⟨b, rfl, hacc, _, _, hstore⟩
  · refine ⟨fun c hc hrunning => hbacked (h.backed c (hsame ▸ hc) hrunning), ?_⟩
    rw [hsame]
    exact h.ascending
  · refine ⟨fun c hc hrunning => hbacked ?_, ?_⟩
    · rw [hstore] at hc
      rcases Versioned.mem_write hc with hc | rfl
      · exact h.backed c hc hrunning
      · exact (hinv.running_after ha htold hheard ho hacc hrunning).1
    · rw [hstore]
      exact h.ascending.write fun hb => (hinv.running_after ha htold hheard ho hacc hb).2

theorem Heard.call {e : Event ApiOp.Resp} (h : Heard f e) {a : AgentTaskStatus}
    {tr : List (Event ApiOp.Resp)} {o : ApiOp} {r : o.Resp}
    (ha : f.store.versions[f.store.seen]? = some a)
    (ho : Justified (task.version f.store.seen a) tr o) (hans : (fleet task).answer f o r f') :
    Heard f' e := by
  obtain ⟨hserve, _, _, hrunners⟩ := hans
  have hbefore : f'.store.Accepts f'.store.seen →
      f.store.Accepts f.store.seen ∧ f'.store.versions = f.store.versions := by
    rcases hserve.cases ha ho.1 with hsame | ⟨b, _, hacc, _, _, hstore⟩
    · rw [hsame]
      exact fun hacc => ⟨hacc, rfl⟩
    · rw [hstore, Versioned.write_seen]
      intro hacc'
      refine ⟨hacc, ?_⟩
      rcases f.store.write_versions b with hv | hv
      · exact hv
      · unfold Versioned.Accepts at hacc hacc'
        rw [hv, List.length_append, List.length_singleton] at hacc'
        omega
  obtain ⟨o', r'⟩ := e
  cases o' with
  | httpGet url =>
    intro hurl s hdecode hno
    obtain ⟨x, hx, hip, hreported, hold⟩ := h hurl s hdecode hno
    refine ⟨x, hrunners ▸ hx, hip, hreported, fun hacc => ?_⟩
    obtain ⟨hacc, hversions⟩ := hbefore hacc
    rw [hversions]
    exact hold hacc
  | _ => trivial

/-! ## Every run -/

theorem progressing_start : Progressing Fleet.start := by
  constructor
  · intro a ha hrunning
    rw [show a = .empty by simpa [Fleet.start] using ha] at hrunning
    cases hrunning
  · intro i j a b _ ha _ hrunning
    rw [show a = .empty by simpa [Fleet.start] using List.mem_of_getElem? ha] at hrunning
    cases hrunning

/-- If no two workers are started in pods of one name, the progress that is persisted of a Running
attempt never goes down once it is the worker's. -/
theorem progress_ascends {c : Pool Unit ApiOp ApiOp.Resp Operator.Outcome Fleet}
    (hc : Reachable (fleet task) task Fleet.start c) (honce : c.world.OnceEach) :
    Ascending c.world.store := by
  have hfleets : Fleets task (fleet task) id := ⟨fun hans => ⟨_, hans, .refl⟩, .single⟩
  have hprogressing : FleetInv task c.world ∧ (c.world.OnceEach → Progressing c.world) := by
    refine hfleets.invariant_held (fun f => f.OnceEach → Progressing f)
      (fun _ tr f => FleetInv task f ∧ (f.OnceEach → ∀ e ∈ tr, Heard f e)) ?_ ?_ ?_ ?_ rfl
      (fun _ => progressing_start) hc
    · exact fun f f' hinv h hd honce => (h (honce.earlier hd)).drift hinv hd
    · intro a tr f f' ⟨hinv, h⟩ hd
      exact ⟨hinv.drift hd, fun honce e he => (h (honce.earlier hd) e he).drift hinv hd⟩
    · intro f r f' hinv h hans
      obtain ⟨hinv', hversions⟩ := hinv.read hans
      have hrunners := hans.2.2.2
      refine ⟨fun honce => ?_, fun _ => ⟨hinv', fun _ e he => by cases he⟩⟩
      have hbefore := h (honce.congr hrunners)
      refine ⟨fun a ha hrunning => ?_, ?_⟩
      · rw [hversions] at ha
        exact (hbefore.backed a ha hrunning).mono fun x hx hreported =>
          ⟨x, hrunners ▸ hx, rfl, hreported⟩
      · unfold Ascending
        rw [hversions]
        exact hbefore.ascending
    · intro f o r f' a tr hinv h htold ⟨_, hheard⟩ ha ho hans
      have honce : f'.OnceEach → f.OnceEach := fun honce => honce.congr hans.2.2.2
      refine ⟨fun h' => (h (honce h')).call hinv ha htold (hheard (honce h')) ho hans,
        hinv.call ha ho.1 hans, fun h' e he => ?_⟩
      rcases List.mem_append.mp he with he | he
      · exact (hheard (honce h') e he).call ha ho hans
      · rw [List.mem_singleton.mp he]
        exact hinv.heard (h (honce h')) (honce h') hans
  exact (hprogressing.2 honce).ascending

/-! ## A run -/

/-- The worker started last makes so many more calls. -/
def Fleet.advanced (answer : (o : Worker.WorkerOp) → o.Resp) (n : Nat) (f : Fleet) : Fleet :=
  match f.runners.getLast? with
  | none => f
  | some x => { f with
      runners := f.runners.dropLast ++ [{ x with process := x.process.advance answer n }] }

theorem Fleet.advanced_drifts (answer : (o : Worker.WorkerOp) → o.Resp) (n : Nat) (f : Fleet) :
    Relation.ReflTransGen Drift f (f.advanced answer n) := by
  unfold advanced
  split
  · exact .refl
  · next x hlast =>
    exact works (List.dropLast_append_getLast? x hlast).symm (x.process.advance_steps answer n)

namespace Fleet

/-- The task as a Reconcile reads it, its pod, and what its worker has in the registry. -/
def taskRead (f : Fleet) : AgentTask := skilledTask.version f.store.latest f.store.current

def podRead (f : Fleet) : Pod := (f.pods.find "worker-t").getD (demoPod .pending)

def statusRead (f : Fleet) : TaskStatus :=
  ((f.runners.find? fun x => x.ip = "10.0.0.1").bind fun x =>
    x.process.statuses "t").getD ⟨"t", .pending, 0, "", "", false, "", ""⟩

/-- The operator has asked the worker for the status of its task. -/
def asked (f : Fleet) : Fleet :=
  let f' := (f.respond skilledTask (.getTask skilledTask.key)).2
  let f' := (f'.respond skilledTask (.getPod f.taskRead.podKey)).2
  (f'.respond skilledTask (.httpGet ⟨f.podRead.podIP, f.taskRead.name, .status⟩)).2

def polled (f : Fleet) : Fleet :=
  (play (respond skilledTask)
    (handleWorkerStatus f.taskRead f.podRead.podIP (reported f.statusRead)) f.asked).2.2

/-- The worker of the running task is there and answers. -/
def Answering (f : Fleet) : Prop :=
  let f₁ := f.respond skilledTask (.getTask skilledTask.key)
  let f₂ := f₁.2.respond skilledTask (.getPod f.taskRead.podKey)
  f₁.1 = .ok f.taskRead ∧ f₂.1 = .ok f.podRead ∧
    ((f₂.2.runners.find? fun x => x.ip = f.podRead.podIP).bind fun x =>
      x.process.statuses f.taskRead.name) = some f.statusRead ∧
    f.taskRead.status.phase = .running ∧ f.podRead.phase = .running ∧ f.podRead.podIP ≠ "" ∧
    0 ≤ f.statusRead.progress ∧ f.statusRead.progress ≤ 100

theorem polled_executes {f : Fleet} (h : f.Answering) : ∃ tr out,
    Executes (fleet skilledTask) (reconcile skilledTask.key) f tr out f.polled := by
  obtain ⟨htask, hpod, hstatus, hrunning, hphase, hip, hprogress⟩ := h
  have hanswer := answer_respond skilledTask
  have hreply : (((f.respond skilledTask (.getTask skilledTask.key)).2.respond skilledTask
      (.getPod f.taskRead.podKey)).2.respond skilledTask
      (.httpGet ⟨f.podRead.podIP, f.taskRead.name, .status⟩)).1 = statusReply f.statusRead :=
    respond_status rfl hstatus
  exact ⟨_, _, executes_report (htask ▸ hanswer _ _) hrunning (hpod ▸ hanswer _ _) hphase hip
    (hreply ▸ hanswer _ _) (decode_reported hprogress) (Executes.of_play hanswer _ _)⟩

end Fleet

/-- The operator asks after two calls of the worker, and after ten more. -/
def polledOnce : Fleet := (workerStarted.advanced (Worker.demoAnswers 0) 2).polled

def polledTwice : Fleet := (polledOnce.advanced (Worker.demoAnswers 0) 10).polled

theorem polledTwice_reachable :
    Reachable (fleet skilledTask) skilledTask Fleet.start (Pool.idle polledTwice) := by
  have hstep : ∀ {f}, Reachable (fleet skilledTask) skilledTask Fleet.start (Pool.idle f) →
      Reachable (fleet skilledTask) skilledTask Fleet.start (Pool.idle (completionStep f)) := by
    intro f h
    obtain ⟨tr, out, hrun⟩ := completionStep_executes f
    exact h.execute (i := ()) hrun
  have hanswering : (workerStarted.advanced (Worker.demoAnswers 0) 2).Answering ∧
      (polledOnce.advanced (Worker.demoAnswers 0) 10).Answering :=
    ⟨⟨by decide +kernel, rfl, by decide +kernel⟩, ⟨by decide +kernel, rfl, by decide +kernel⟩⟩
  obtain ⟨_, _, hfirst⟩ := Fleet.polled_executes hanswering.1
  obtain ⟨_, _, hsecond⟩ := Fleet.polled_executes hanswering.2
  have hup := (hstep (hstep .refl)).drifts workerUp_drifts
  rw [workerUp_eq] at hup
  have honce := (hup.drifts (Fleet.advanced_drifts _ 2 _)).execute (i := ()) hfirst
  exact (honce.drifts (Fleet.advanced_drifts _ 10 _)).execute (i := ()) hsecond

theorem progress_ascends_demo :
    Ascending polledTwice.store ∧
      polledTwice.store.versions.map AgentTaskStatus.progress = [0, 0, 5, 10, 20] := by
  have hrun : polledTwice.runners.map Runner.ip = ["10.0.0.1"] ∧
      polledTwice.store.versions.map AgentTaskStatus.progress = [0, 0, 5, 10, 20] := by
    decide +kernel
  have honly : ∀ x ∈ polledTwice.runners, x.ip = "10.0.0.1" := by
    intro x hx
    have hip := List.mem_map_of_mem (f := Runner.ip) hx
    rw [hrun.1] at hip
    exact List.mem_singleton.mp hip
  have hascends := progress_ascends polledTwice_reachable
  rw [Pool.idle_world] at hascends
  exact ⟨hascends fun x hx y hy _ => (honly x hx).trans (honly y hy).symm, hrun.2⟩

end BulletFarm.System
