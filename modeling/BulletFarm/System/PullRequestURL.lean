import BulletFarm.System.Fleet

/-!
# One pull request for a task

The URL of the pull request goes from the operator's status into the payload of the
next attempt, from there into the request of its worker, and back in the worker's
status. It is never lost or replaced on the way.
-/

namespace BulletFarm.System

open Interaction Program Operator
open Worker (Calm Process TaskRequest TaskStatus requestOf startupRequest startupRequest_podFor)

set_option autoImplicit false

variable {task : AgentTask} {f f' : Fleet}

/-- The worker of the attempt has not had its last word. -/
def Early (s : AgentTaskStatus) : Prop := s.phase ∈ [Phase.unset, .pending, .running]

/-- The URL is kept once there is one, and only the end of an attempt changes it. -/
structure UrlInv (s : Versioned AgentTaskStatus) : Prop where
  kept : s.Moves fun a b => a.pullRequestURL ≠ "" → b.pullRequestURL = a.pullRequestURL
  uniform : ∀ a ∈ s.versions, ∀ b ∈ s.versions, Early a → Early b →
    a.retryCount = b.retryCount → a.pullRequestURL = b.pullRequestURL

theorem StatusMove.early {spec : AgentTaskSpec} {a b : AgentTaskStatus} (h : StatusMove spec a b)
    (hb : Early b) : Early a ∧ b.retryCount = a.retryCount ∨ b.retryCount = a.retryCount + 1 := by
  have hretry := h.retry
  split at hretry
  · exact Or.inr hretry
  · rename_i hreset
    refine Or.inl ⟨?_, hretry⟩
    unfold Early at *
    rcases h.phase with hp | hp
    · rwa [hp] at hb
    · generalize a.phase = p at *
      generalize b.phase = q at *
      cases hp <;> simp at hb hreset ⊢

theorem MayWrite.url {t : AgentTask} {b : AgentTaskStatus} (h : MayWrite t b)
    (ht : t.status.phase ≠ .running) : b.pullRequestURL = t.status.pullRequestURL := by
  unfold MayWrite at h
  split at h
  · rw [h]
  · rcases h with ⟨message, rfl⟩ | ⟨time, message, rfl⟩ <;> rfl
  · rename_i hp
    exact absurd hp ht
  · rcases h with ⟨message, rfl⟩ | ⟨phase, message, prState, _, rfl⟩ <;> rfl
  · rcases h with ⟨message, rfl⟩ | ⟨phase, message, prState, _, rfl⟩ <;> rfl
  · rcases h with ⟨_, message, rfl⟩ | ⟨_, message, rfl⟩ <;> rfl
  · exact h.elim
  · exact h.elim
  · rw [h]

theorem UrlInv.start : UrlInv (Versioned.start .empty) := by
  refine ⟨Versioned.moves_start _ _, ?_⟩
  intro a ha b hb _ _ _
  simp only [Versioned.start_versions, List.mem_singleton] at ha hb
  rw [ha, hb]

theorem UrlInv.congr {s s' : Versioned AgentTaskStatus} (h : UrlInv s)
    (hversions : s'.versions = s.versions) : UrlInv s' := by
  refine ⟨?_, ?_⟩
  · unfold Versioned.Moves
    rw [hversions]
    exact h.kept
  · rw [hversions]
    exact h.uniform

/-- A write keeps the invariant if it keeps the URL, and changes it only to end the attempt. -/
theorem UrlInv.write {s : Versioned AgentTaskStatus} (h : UrlInv s) {spec : AgentTaskSpec}
    (hlifecycle : TaskInv spec s) {a b : AgentTaskStatus} (ha : s.current = a)
    (hmove : StatusMove spec a b) (hkept : a.pullRequestURL ≠ "" → b.pullRequestURL = a.pullRequestURL)
    (hearly : Early a → Early b → b.pullRequestURL = a.pullRequestURL) : UrlInv (s.write b) := by
  have hnew : ∀ c ∈ s.versions, Early c → Early b → c.retryCount = b.retryCount →
      c.pullRequestURL = b.pullRequestURL := by
    intro c hc hcearly hbearly hretry
    rcases StatusMove.early hmove hbearly with ⟨haearly, hsame⟩ | hreset
    · have hmem : a ∈ s.versions := ha ▸ s.current_mem
      rw [h.uniform c hc a hmem hcearly haearly (hretry.trans hsame), hearly haearly hbearly]
    · obtain ⟨i, hi⟩ := List.getElem?_of_mem hc
      have hlast := s.current_eq_getElem?
      have hlt := (List.getElem?_eq_some_iff.mp hi).1
      have hle := hlifecycle.retryCount_le (j := s.latest) (by unfold Versioned.latest; omega) hi hlast
      rw [ha] at hle
      omega
  refine ⟨h.kept.write (ha ▸ hkept), ?_⟩
  intro c hc d hd hcearly hdearly hretry
  rcases Versioned.mem_write hc with hcold | hcnew
  · rcases Versioned.mem_write hd with hdold | hdnew
    · exact h.uniform c hcold d hdold hcearly hdearly hretry
    · rw [hdnew] at hdearly hretry ⊢
      exact hnew c hcold hcearly hdearly hretry
  · rcases Versioned.mem_write hd with hdold | hdnew
    · rw [hcnew] at hcearly hretry ⊢
      exact (hnew d hdold hdearly hcearly hretry.symm).symm
    · rw [hcnew, hdnew]

/-- The request of a worker whose pod was made for this version. -/
theorem request_podFor {t : AgentTask} {agent : Agent} {request : TaskRequest}
    (h : startupRequest (podFor t agent) = some request) :
    request.prURL = t.status.pullRequestURL ∧ request.targetBranch = targetBranch t := by
  rw [startupRequest_podFor] at h
  obtain ⟨_, _, rfl⟩ := Option.map_eq_some_iff.mp h
  exact ⟨rfl, rfl⟩

/-- A worker whose pod has the name of the attempt was given the URL of that attempt. -/
theorem FleetInv.given (h : FleetInv task f) (hurls : UrlInv f.store) {x : Runner}
    (hx : x ∈ f.runners) {a : AgentTaskStatus} (ha : a ∈ f.store.versions) (hrunning : a.phase = .running)
    (hname : x.pod.name = a.workerPod) {request : TaskRequest}
    (hrequest : startupRequest x.pod = some request) : request.prURL = a.pullRequestURL := by
  obtain ⟨n, b, agent, hb, hpending, hbname, hbrequest⟩ := (h.runners x hx).1
  have hattempt : b.retryCount = a.retryCount := by
    apply workerPodName_injective (h.lifecycle.retryCount hb).1 (h.lifecycle.retryCount ha).1
    calc workerPodName task.name b.retryCount
        = x.pod.name := hbname.symm
      _ = a.workerPod := hname
      _ = workerPodName task.name a.retryCount := h.attended a ha (by simp [hrunning])
  rw [hbrequest] at hrequest
  rw [(request_podFor hrequest).1]
  exact hurls.uniform b hb a ha (by simp [Early, hpending]) (by simp [Early, hrunning]) hattempt

/-- What is written over a running task keeps the URL, and brings one only with the end of
the attempt. -/
theorem FleetInv.running_url (h : FleetInv task f) (hurls : UrlInv f.store) {n : Nat}
    {a b : AgentTaskStatus} (ha : a ∈ f.store.versions) (hrunning : a.phase = .running)
    {tr : List (Event ApiOp.Resp)} (hwrite : RunningWrite (task.version n a) tr b)
    (htold : ∀ e ∈ tr, Told f e) :
    (a.pullRequestURL ≠ "" → b.pullRequestURL = a.pullRequestURL) ∧
      (Early b → b.pullRequestURL = a.pullRequestURL) := by
  cases hwrite with
  | disappeared _ => exact ⟨fun _ => rfl, fun _ => rfl⟩
  | podFailed _ => exact ⟨fun _ => rfl, fun _ => rfl⟩
  | podSucceeded _ => exact ⟨fun _ => rfl, fun _ => rfl⟩
  | @answered pod reply status rest _ _ hip hdecode hreported =>
    obtain ⟨x, hx, hname, request, exposed, hrequest, hphase, hurl, hstatus⟩ :=
      h.answered htold hip hdecode
    have hgiven := h.given hurls hx ha hrunning hname hrequest
    have hb : b.pullRequestURL =
        if status.pullRequestURL ≠ "" then status.pullRequestURL else a.pullRequestURL := by
      cases hreported <;> rfl
    rcases hstatus with hunfinished | hended
    · rw [hurl, hunfinished.url, if_neg (by simp)] at hb
      exact ⟨fun _ => hb, fun _ => hb⟩
    · refine ⟨fun hsome => ?_, fun hearly => ?_⟩
      · rw [hb, hurl, hended.url (hgiven ▸ hsome), hgiven, if_pos hsome]
      · have hconcluded := hended.concluded
        cases hreported with
        | unfinished hno =>
          rw [hphase] at hno
          simp only [Worker.Concluded, List.mem_cons, List.not_mem_nil, or_false] at hconcluded
          rcases hconcluded with hc | hc | hc
          · simp [hc, Worker.TaskPhase.value] at hno
          · simp [hc, Worker.TaskPhase.value] at hno
          · simp [hc, Worker.TaskPhase.value] at hno
        | _ => simp [Early] at hearly

theorem FleetInv.call_url (h : FleetInv task f) (hurls : UrlInv f.store) {a : AgentTaskStatus}
    {tr : List (Event ApiOp.Resp)} {o : ApiOp} {r : o.Resp}
    (ha : f.store.versions[f.store.seen]? = some a) (htold : ∀ e ∈ tr, Told f e)
    (ho : Justified (task.version f.store.seen a) tr o) (hans : (fleet task).answer f o r f') :
    UrlInv f'.store := by
  rcases ((stores_fleet task).answer hans).cases ha ho.1 with hsame | ⟨b, rfl, _, hcurrent, hwrite, hstore⟩
  · rw [hsame]
    exact hurls
  · have hmem := List.mem_of_getElem? ha
    have hmove := hwrite.statusMove (h.lifecycle.known hmem)
    rw [hstore]
    by_cases hrunning : a.phase = .running
    · obtain ⟨s', hs', hreason⟩ := ho.running hrunning
      have hb : b = s' := congrArg AgentTask.status hs'
      rw [← hb] at hreason
      obtain ⟨hkept, hearly⟩ := h.running_url hurls hmem hrunning hreason htold
      exact hurls.write h.lifecycle hcurrent hmove hkept fun _ => hearly
    · have hurl := MayWrite.url hwrite hrunning
      exact hurls.write h.lifecycle hcurrent hmove (fun _ => hurl) fun _ _ => hurl

/-! ## The payloads -/

/-- The payload the pod hands to its worker. -/
def Carries (pod : Pod) (payload : TaskPayload) : Prop :=
  pod.env.find? (fun v => v.name = "TASK_PAYLOAD") =
    some ⟨"TASK_PAYLOAD", .value (Go.marshal payload.toJson)⟩

theorem carries_podFor (t : AgentTask) (agent : Agent) : Carries (podFor t agent) (taskPayload t agent) :=
  rfl

/-- A request for a pod said what had been persisted by then. -/
structure Faithful (task : AgentTask) (s : Versioned AgentTaskStatus) (entry : Creation) : Prop where
  payload : ∃ p, Carries entry.pod p ∧ p.targetBranch = targetBranch task ∧
    ∀ i a, i < entry.versions → s.versions[i]? = some a → a.pullRequestURL ≠ "" →
      p.prURL = a.pullRequestURL
  before : entry.versions ≤ s.versions.length

theorem Faithful.grows {s s' : Versioned AgentTaskStatus} {entry : Creation}
    (h : Faithful task s entry) (hpre : s.versions <+: s'.versions) : Faithful task s' entry := by
  obtain ⟨⟨p, hcarries, hbranch, hurl⟩, hbefore⟩ := h
  refine ⟨⟨p, hcarries, hbranch, ?_⟩, hbefore.trans hpre.length_le⟩
  intro i a hi ha
  refine hurl i a hi ?_
  have hlt : i < s.versions.length := by omega
  rw [List.getElem?_eq_getElem hlt, ← List.prefix_iff_getElem?.mp hpre i hlt]
  exact ha

theorem UrlInv.kept_le {s : Versioned AgentTaskStatus} (h : UrlInv s) {i j : Nat} (hij : i ≤ j)
    {a b : AgentTaskStatus} (ha : s.versions[i]? = some a) (hb : s.versions[j]? = some b)
    (hurl : a.pullRequestURL ≠ "") : b.pullRequestURL = a.pullRequestURL := by
  refine h.kept.preserves
    (fun a b => a.pullRequestURL ≠ "" → b.pullRequestURL = a.pullRequestURL) (fun _ _ => rfl) ?_
    hij ha hb hurl
  intro a b c hab hbc hsome
  have hsame := hab hsome
  exact (hbc (hsame ▸ hsome)).trans hsame

/-- A pod is asked for with the URL that is persisted, though the read may be one behind. -/
theorem Faithful.of_createPod {s : Versioned AgentTaskStatus} (h : TaskInv task.spec s)
    (hurls : UrlInv s) {a : AgentTaskStatus} {pod : Pod} (ha : s.versions[s.seen]? = some a)
    (ho : MayCall true (task.version s.seen a) (.createPod pod)) (accepted : Bool) :
    Faithful task s ⟨pod, s.versions.length, accepted⟩ := by
  obtain ⟨hpending, agent, rfl⟩ := ho
  rw [version_status] at hpending
  refine ⟨⟨_, carries_podFor _ _, rfl, ?_⟩, Nat.le_refl _⟩
  intro i b hi hb hurl
  change a.pullRequestURL = b.pullRequestURL
  rcases Nat.lt_or_ge s.seen i with hlt | hle
  · -- the only version after the one read is a write over it
    have hclose := h.close
    unfold Versioned.Close Versioned.latest at hclose
    dsimp only at hi
    have hnext : i = s.seen + 1 := by omega
    subst hnext
    have hmove := h.moves _ _ _ ha hb
    have hearly : Early b := by
      rcases hmove.phase with hp | hp
      · simp [Early, hp, hpending]
      · rw [hpending] at hp
        generalize hq : b.phase = q at hp
        cases hp
        simp [Early, hq]
    have hretry : b.retryCount = a.retryCount := by simpa [hpending] using hmove.retry
    exact hurls.uniform a (List.mem_of_getElem? ha) b (List.mem_of_getElem? hb)
      (by simp [Early, hpending]) hearly hretry.symm
  · exact hurls.kept_le hle hb ha hurl

/-! ## Every run -/

theorem fleets_recording (task : AgentTask) :
    Fleets task ((fleet task).watched (recordCreation Fleet.store)) Prod.fst :=
  ⟨fun hans => ⟨_, hans.1, .refl⟩, fun hd => .single hd.1⟩

structure HandedOn (task : AgentTask) (w : Fleet × List Creation) : Prop where
  urls : UrlInv w.1.store
  log : ∀ entry ∈ w.2, Faithful task w.1.store entry

variable {w w' : Fleet × List Creation}

theorem HandedOn.call (h : HandedOn task w) (hinv : FleetInv task w.1) {a : AgentTaskStatus}
    {tr : List (Event ApiOp.Resp)} {o : ApiOp} {r : o.Resp}
    (ha : w.1.store.versions[w.1.store.seen]? = some a) (htold : ∀ e ∈ tr, Told w.1 e)
    (ho : Justified (task.version w.1.store.seen a) tr o)
    (hans : ((fleet task).watched (recordCreation Fleet.store)).answer w o r w') : HandedOn task w' := by
  obtain ⟨hans, hm⟩ := hans
  have hserve := (stores_fleet task).answer hans
  refine ⟨hinv.call_url h.urls ha htold ho hans, ?_⟩
  · intro entry he
    rw [hm] at he
    refine Faithful.grows ?_ (hserve.grows ha ho.1)
    rcases recordCreation_cases Fleet.store w.2 w.1 o r with hr | ⟨pod, accepted, rfl, hr⟩
    · exact h.log entry (hr ▸ he)
    · rw [hr] at he
      rcases List.mem_append.mp he with he | he
      · exact h.log entry he
      · rw [List.mem_singleton.mp he]
        exact Faithful.of_createPod hinv.lifecycle h.urls ha ho.1 accepted

theorem HandedOn.read (h : HandedOn task w) (hinv : FleetInv task w.1) {key : NamespacedName}
    {r : Except ApiError AgentTask}
    (hans : ((fleet task).watched (recordCreation Fleet.store)).answer w (.getTask key) r w') :
    HandedOn task w' := by
  obtain ⟨hans, hm⟩ := hans
  have hversions := (hinv.read hans).2
  refine ⟨h.urls.congr hversions, ?_⟩
  intro entry he
  rw [hm] at he
  exact (h.log entry he).grows (hversions ▸ List.prefix_rfl)

theorem HandedOn.drift (h : HandedOn task w)
    (hd : ((fleet task).watched (recordCreation Fleet.store)).drift w w') : HandedOn task w' := by
  obtain ⟨hd, hm⟩ := hd
  have hstore := hd.store_eq
  exact ⟨hstore ▸ h.urls, fun entry he => hstore ▸ h.log entry (hm ▸ he)⟩

theorem handedOn {c : Pool Unit ApiOp ApiOp.Resp Outcome (Fleet × List Creation)}
    (hc : Reachable ((fleet task).watched (recordCreation Fleet.store)) task (Fleet.start, []) c) :
    FleetInv task c.world.1 ∧ HandedOn task c.world := by
  refine (fleets_recording task).invariant (HandedOn task) ?_ ?_ ?_ rfl ?_ hc
  · exact fun _ _ _ h hd => h.drift hd
  · exact fun _ _ _ hinv h hans => h.read hinv hans
  · exact fun _ _ _ _ _ _ hinv h htold ha ho hans => h.call hinv ha htold ho hans
  · exact ⟨UrlInv.start, fun _ he => by cases he⟩

/-- Once the task has a pull request its URL stays; the payload of every later attempt has that
URL, on the same branch; and a worker that is given one opens none, and exposes no other. -/
theorem pull_request_url_kept {c : Pool Unit ApiOp ApiOp.Resp Outcome (Fleet × List Creation)}
    (hc : Reachable ((fleet task).watched (recordCreation Fleet.store)) task (Fleet.start, []) c) :
    (∀ (i j : Nat) (a b : AgentTaskStatus), i ≤ j → c.world.1.store.versions[i]? = some a →
      c.world.1.store.versions[j]? = some b → a.pullRequestURL ≠ "" →
      b.pullRequestURL = a.pullRequestURL) ∧
    (∀ entry ∈ c.world.2, ∃ p, Carries entry.pod p ∧ p.targetBranch = targetBranch task ∧
      ∀ i a, i < entry.versions → c.world.1.store.versions[i]? = some a →
        a.pullRequestURL ≠ "" → p.prURL = a.pullRequestURL) ∧
    ∀ x ∈ c.world.1.runners, ∀ request, startupRequest x.pod = some request →
      request.targetBranch = targetBranch task ∧
      (∃ a ∈ c.world.1.store.versions, a.phase = .pending ∧
        x.pod.name = attemptPod task a ∧ request.prURL = a.pullRequestURL) ∧
      (request.prURL ≠ "" → Calm x.process.made ∧ ∀ id status,
        x.process.statuses id = some status →
        status.pullRequestURL = request.prURL ∨ status.pullRequestURL = "") := by
  obtain ⟨hinv, h⟩ := handedOn hc
  refine ⟨?_, ?_, ?_⟩
  · intro i j a b hij ha hb hurl
    exact h.urls.kept_le hij ha hb hurl
  · intro entry he
    exact (h.log entry he).payload
  · intro x hx request hrequest
    obtain ⟨⟨n, a, agent, ha, hpending, hname, hborn⟩, hreached⟩ := hinv.runners x hx
    have hpod : startupRequest (podFor (task.version n a) agent) = some request := hborn ▸ hrequest
    obtain ⟨hurl, hbranch⟩ := request_podFor hpod
    refine ⟨hbranch, ⟨a, ha, hpending, hname, hurl⟩, fun hsome => ?_⟩
    rw [hrequest] at hreached
    exact hreached.given hsome

/-! An attempt that ends with a pull request, and the next one. -/

/-- The answers to one Reconcile. -/
def urlAnswer : Fleet × List Creation → (o : ApiOp) → o.Resp × Fleet × List Creation :=
  watching (Fleet.respond skilledTask) (recordCreation Fleet.store)

theorem urlAnswer_fst (w : Fleet × List Creation) (o : ApiOp) :
    (urlAnswer w o).1 = (w.1.respond skilledTask o).1 := rfl

def urlStep (w : Fleet × List Creation) : Fleet × List Creation :=
  (play urlAnswer (reconcile skilledTask.key) w).2.2

/-- The worker of the first attempt has come to its end. -/
def urlFinished : Fleet × List Creation :=
  let w := urlStep (urlStep (Fleet.start, []))
  ((w.1.up "worker-t" "10.0.0.1").finished Worker.WorkerOp.benign, w.2)

def urlTask : AgentTask := skilledTask.version 2 urlFinished.1.store.current

def urlPod : Pod := (urlFinished.1.pods.find "worker-t").getD (demoPod .pending)

def urlStatus : TaskStatus :=
  ((urlFinished.1.runners.find? fun x => x.ip = "10.0.0.1").bind fun x =>
    x.process.statuses "t").getD ⟨"t", .pending, 0, "", "", false, "", ""⟩

/-- The version the pod of the worker is made for. -/
def urlStarted : AgentTask := skilledTask.version 1 (urlStep (Fleet.start, [])).1.store.current

/-- The worker is started with what its payload says. -/
def urlUp (f : Fleet) : Fleet := { f with
  pods := f.pods.report "worker-t" .running "10.0.0.1"
  runners := f.runners ++
    [⟨{ podFor urlStarted demoAgent with phase := .running, podIP := "10.0.0.1" }, "10.0.0.1",
      "token", .boot "token" (some (requestOf (taskPayload urlStarted demoAgent)))⟩] }

theorem urlFinished_eq : urlFinished =
    ((urlUp (urlStep (urlStep (Fleet.start, []))).1).finished Worker.WorkerOp.benign,
      (urlStep (urlStep (Fleet.start, []))).2) := by
  have hup : (urlStep (urlStep (Fleet.start, []))).1.up "worker-t" "10.0.0.1" =
      urlUp (urlStep (urlStep (Fleet.start, []))).1 :=
    Fleet.up_eq rfl ((startupRequest_podFor urlStarted demoAgent).trans rfl)
  rw [urlFinished, hup]

/-- The operator has asked for its status. -/
def urlPolled : Fleet × List Creation :=
  let w := (urlAnswer urlFinished (.getTask skilledTask.key)).2
  (urlAnswer (urlAnswer w (.getPod urlTask.podKey)).2
    (.httpGet ⟨urlPod.podIP, urlTask.name, .status⟩)).2

def urlReported : Fleet × List Creation :=
  (play urlAnswer (handleWorkerStatus urlTask urlPod.podIP (reported urlStatus)) urlPolled).2.2

/-- The second attempt runs. -/
def urlRetried : Fleet × List Creation := urlStep (urlStep urlReported)

theorem urlRetried_reachable :
    Reachable ((fleet skilledTask).watched (recordCreation Fleet.store)) skilledTask
      (Fleet.start, []) (Pool.idle urlRetried) := by
  have hanswer : ∀ w o, ((fleet skilledTask).watched (recordCreation Fleet.store)).answer w o
      (urlAnswer w o).1 (urlAnswer w o).2 :=
    answer_watching (Fleet.answer_respond skilledTask) (recordCreation Fleet.store)
  have hstep : ∀ {w}, Reachable ((fleet skilledTask).watched (recordCreation Fleet.store)) skilledTask
        (Fleet.start, []) (Pool.idle w) →
      Reachable ((fleet skilledTask).watched (recordCreation Fleet.store)) skilledTask
        (Fleet.start, []) (Pool.idle (urlStep w)) :=
    fun h => h.execute (i := ()) (Executes.of_play hanswer _ _)
  have hup : Relation.ReflTransGen Fleet.Drift (urlStep (urlStep (Fleet.start, []))).1
      ((urlStep (urlStep (Fleet.start, []))).1.up "worker-t" "10.0.0.1") :=
    Fleet.up_drifts (by decide +kernel)
  have hfinished : Reachable ((fleet skilledTask).watched (recordCreation Fleet.store)) skilledTask
      (Fleet.start, []) (Pool.idle urlFinished) :=
    (hstep (hstep .refl)).drifts
      (drifts_watched (hup.trans (Fleet.finished_drifts Worker.WorkerOp.benign _)) _)
  have hpolled : (urlAnswer urlFinished (.getTask skilledTask.key)).1 = .ok urlTask ∧
      (urlAnswer (urlAnswer urlFinished (.getTask skilledTask.key)).2
        (.getPod urlTask.podKey)).1 = .ok urlPod ∧
      (((urlAnswer (urlAnswer urlFinished (.getTask skilledTask.key)).2
        (.getPod urlTask.podKey)).2.1.runners.find? fun x => x.ip = urlPod.podIP).bind fun x =>
          x.process.statuses urlTask.name) = some urlStatus ∧
      urlTask.status.phase = .running ∧ urlPod.phase = .running ∧ urlPod.podIP ≠ "" ∧
      0 ≤ urlStatus.progress ∧ urlStatus.progress ≤ 100 := by
    simp only [urlTask, urlPod, urlStatus, urlFinished_eq]
    exact ⟨by decide +kernel, rfl, by decide +kernel⟩
  obtain ⟨htask, hpod, hstatus, hrunning, hphase, hip, hprogress⟩ := hpolled
  have hreply : (urlAnswer (urlAnswer (urlAnswer urlFinished (.getTask skilledTask.key)).2
      (.getPod urlTask.podKey)).2 (.httpGet ⟨urlPod.podIP, urlTask.name, .status⟩)).1 =
        statusReply urlStatus := by
    rw [urlAnswer_fst]
    exact Fleet.respond_status rfl hstatus
  have hreport : ∃ tr out, Executes ((fleet skilledTask).watched (recordCreation Fleet.store))
      (reconcile skilledTask.key) urlFinished tr out urlReported :=
    ⟨_, _, executes_report (htask ▸ hanswer _ _) hrunning (hpod ▸ hanswer _ _) hphase hip
      (hreply ▸ hanswer _ _) (decode_reported hprogress) (Executes.of_play hanswer _ _)⟩
  obtain ⟨tr, out, hrun⟩ := hreport
  exact hstep (hstep (hfinished.execute (i := ()) hrun))

theorem pull_request_url_demo :
    ∃ entry ∈ urlRetried.2, entry.pod.name = "worker-t-r1" ∧
      ∃ p, Carries entry.pod p ∧ p.targetBranch = "task-t" ∧ p.prURL = "url" := by
  have hrun : (urlRetried.1.store.versions[3]?).map AgentTaskStatus.pullRequestURL = some "url" ∧
      ∃ entry ∈ urlRetried.2, entry.pod.name = "worker-t-r1" ∧ 3 < entry.versions := by
    decide +kernel
  obtain ⟨hopened, entry, he, hname, hversions⟩ := hrun
  obtain ⟨a, ha, hurl⟩ := Option.map_eq_some_iff.mp hopened
  have hlog := (pull_request_url_kept urlRetried_reachable).2.1
  rw [Pool.idle_world] at hlog
  obtain ⟨p, hcarries, hbranch, hpayload⟩ := hlog entry he
  have htarget : targetBranch skilledTask = "task-t" := by decide
  refine ⟨entry, he, hname, p, hcarries, hbranch.trans htarget, ?_⟩
  rw [← hurl]
  apply hpayload 3 a hversions ha
  rw [hurl]
  decide

end BulletFarm.System
