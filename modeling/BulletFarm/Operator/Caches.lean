import BulletFarm.Operator.Leaks
import BulletFarm.Operator.Reasons

/-!
# Pods behind a cache

The operator reads tasks and pods from a cache for each kind, and writes to the API server. A
pod that is not in the cache has gone, or is too new to be there.
-/

namespace BulletFarm.Operator

open Interaction Program

set_option autoImplicit false

variable {task : AgentTask}

/-! ## The two caches -/

/-- There is a pod of the name. -/
abbrev HasPod (name : String) (p : Pods) : Prop := p.find name ≠ none

/-- What the calls do to the pods of the API server, and to what has been read of them. -/
def ServePods (s : Versioned Pods) : (o : ApiOp) → o.Resp → Versioned Pods → Prop
  | .getPod key, .ok pod, s' => ∃ n p, s.Serves n p ∧ p.find key.name = some pod ∧ s' = s.read n
  | .getPod key, .error err, s' =>
    (err.reason = .notFound ∧ ∃ n p, s.Serves n p ∧ p.find key.name = none ∧ s' = s.read n) ∨
      (err.reason ≠ .notFound ∧ s' = s)
  | .createPod pod, .ok _, s' =>
    s.current.find pod.name = none ∧ s' = s.write (s.current.add pod)
  | .createPod pod, .error err, s' => (err.reason = .alreadyExists → HasPod pod.name s.current) ∧
    (s' = s ∨ s.current.find pod.name = none ∧ s' = s.write (s.current.add pod))
  | .deletePod key, .ok _, s' =>
    HasPod key.name s.current ∧ s' = s.write (s.current.delete key.name)
  | .deletePod key, .error _, s' =>
    s' = s ∨ HasPod key.name s.current ∧ s' = s.write (s.current.delete key.name)
  | _, _, s' => s' = s

/-- The versions of the task and of the pods, and how far either cache has been read. -/
structure Caches where
  store : Versioned AgentTaskStatus
  pods : Versioned Pods
deriving DecidableEq

def Caches.start : Caches := ⟨Versioned.start .empty, Versioned.start ⟨[], []⟩⟩

/-- Pods may go, and are reported on, at any time. -/
def caches (task : AgentTask) : Environment ApiOp ApiOp.Resp Caches where
  answer w o r w' := Serve task w.store o r w'.store ∧ ServePods w.pods o r w'.pods
  drift w w' := w'.store = w.store ∧ ∃ p, w.pods.current.Churn p ∧ w'.pods = w.pods.write p

/-- A write of the status, with the pods as they have been until then. -/
structure StatusWrite where
  before : AgentTaskStatus
  after : AgentTaskStatus
  pods : Versioned Pods

/-- A history of the writes that are based on the current version. -/
def recordWrite (m : List StatusWrite) (w : Caches) (o : ApiOp) (_ : o.Resp) : List StatusWrite :=
  match o with
  | .updateTaskStatus t =>
    if w.store.Accepts t.resourceVersion then m ++ [⟨w.store.current, t.status, w.pods⟩] else m
  | _ => m

/-- The attempt fails because its pod is not there. -/
def StatusWrite.Disappears (e : StatusWrite) : Prop :=
  e.before.phase ≠ .failed ∧ e.after.phase = .failed ∧ e.after.lastFailureReason = "pod_disappeared"

/-- The pod has been there, and is no longer. -/
def Lost (pods : Versioned Pods) (name : String) : Prop :=
  (∃ p ∈ pods.versions, HasPod name p) ∧ ¬ HasPod name pods.current

/-- A creation of the pod is not in the cache yet. -/
def Unseen (pods : Versioned Pods) (name : String) : Prop := pods.Arises (HasPod name) pods.seen

/-- The pod is the one of the attempt that is about to run or runs. -/
def OfAttempt (task : AgentTask) (s : AgentTaskStatus) (name : String) : Prop :=
  name = attemptPod task s ∧ (s.phase = .pending ∨ s.phase = .running)

/-- An attempt fails for the want of a pod only if it has lost it, and only the pod of an attempt
that goes on is unseen. -/
structure PodsAccounted (task : AgentTask) (w : Caches × List StatusWrite) : Prop where
  disappeared : ∀ e ∈ w.2, e.Disappears → Lost e.pods e.after.workerPod
  tracked : ∀ name, Unseen w.1.pods name → OfAttempt task w.1.store.current name

/-- The cache has an answer. -/
def Answered (r : Except ApiError Pod) : Prop := ∀ err, r = .error err → err.reason = .notFound

/-- When the pod of a running task is looked up, the cache has seen its creation. -/
def SeesCreation (w : Caches × List StatusWrite) :
    (o : ApiOp) → o.Resp → Caches × List StatusWrite → Prop
  | .getPod key, r, w' =>
    (w.1.store.versions[w.1.store.seen]?.map AgentTaskStatus.phase) = some .running →
      Answered r → ¬ Unseen w'.1.pods key.name
  | _, _, _ => True

abbrev seeingEnv (task : AgentTask) : Environment ApiOp ApiOp.Resp (Caches × List StatusWrite) :=
  ((caches task).watched recordWrite).restrict SeesCreation

theorem stores_seeingEnv (task : AgentTask) :
    Stores task (seeingEnv task) (fun w => w.1.store) :=
  ⟨fun h => h.1.1.1, fun h => h.1.1⟩

/-! ## What may become of the pods -/

/-- The cache is read on, or a version is written that has no pod which was not there. -/
inductive Subsides (s : Versioned Pods) : Versioned Pods → Prop where
  | read {n : Nat} : s.seen ≤ n → Subsides s (s.read n)
  | write {p : Pods} : (∀ name, HasPod name p → HasPod name s.current) → Subsides s (s.write p)

theorem ServePods.cases {s s' : Versioned Pods} {o : ApiOp} {r : o.Resp} (h : ServePods s o r s') :
    Subsides s s' ∨ ∃ pod, o = .createPod pod ∧ s' = s.write (s.current.add pod) := by
  have hsame : Subsides s s := .read (Nat.le_refl s.seen)
  have hdelete : ∀ name, Subsides s (s.write (s.current.delete name)) := fun _ => .write fun _ h => h
  cases o with
  | getPod key =>
    left
    cases r with
    | ok pod =>
      obtain ⟨n, p, hserves, _, rfl⟩ := h
      exact .read hserves.1
    | error err =>
      rcases h with ⟨_, n, p, hserves, _, rfl⟩ | ⟨_, rfl⟩
      · exact .read hserves.1
      · exact hsame
  | createPod pod =>
    cases r with
    | ok _ => exact Or.inr ⟨pod, rfl, h.2⟩
    | error err =>
      rcases h.2 with rfl | ⟨_, rfl⟩
      · exact Or.inl hsame
      · exact Or.inr ⟨pod, rfl, rfl⟩
  | deletePod key =>
    left
    cases r with
    | ok _ => exact h.2 ▸ hdelete _
    | error err =>
      rcases h with rfl | ⟨_, rfl⟩
      · exact hsame
      · exact hdelete _
  | _ => exact Or.inl ((h : s' = s) ▸ hsame)

theorem Pods.Churn.hasPod {p p' : Pods} (h : p.Churn p') {name : String} (hp : HasPod name p') :
    HasPod name p := by
  intro hnone
  apply hp
  rw [Pods.find_eq_none] at hnone ⊢
  intro pod' hpod'
  obtain ⟨pod, hpod, hname, _⟩ := h.existing hpod'
  rw [hname]
  exact hnone pod hpod

section Subsides
variable {s s' : Versioned Pods} {name : String}

theorem Subsides.unseen (h : Subsides s s') (hunseen : Unseen s' name) : Unseen s name := by
  cases h with
  | read hn => exact hunseen.mono hn
  | write hp =>
    rcases hunseen.of_write with harises | ⟨hnot, hnew⟩
    · rwa [Versioned.write_seen] at harises
    · exact absurd (hp _ hnew) hnot

theorem Subsides.gone (h : Subsides s s') (hgone : ¬ HasPod name s.current) :
    ¬ HasPod name s'.current := by
  cases h with
  | read _ => exact hgone
  | write hp =>
    rw [Versioned.write_current]
    exact mt (hp _) hgone

theorem Subsides.existed (h : Subsides s s') (hexisted : ∃ p ∈ s.versions, HasPod name p) :
    ∃ p ∈ s'.versions, HasPod name p := by
  cases h with
  | read _ => exact hexisted
  | write _ =>
    obtain ⟨p, hp, hhas⟩ := hexisted
    exact ⟨p, (s.prefix_write _).subset hp, hhas⟩

/-- A creation adds a pod that has not been seen. -/
theorem unseen_add {pod : Pod} (h : Unseen (s.write (s.current.add pod)) name) :
    Unseen s name ∨ name = pod.name := by
  rcases h.of_write with harises | ⟨hnot, hnew⟩
  · rw [Versioned.write_seen] at harises
    exact Or.inl harises
  · right
    by_contra hne
    apply hnew
    have hnone := Pods.find_eq_none.mp (not_not.mp hnot)
    rw [Pods.find_eq_none]
    intro other hother
    rcases List.mem_append.mp hother with hother | hother
    · exact hnone other hother
    · rw [List.mem_singleton.mp hother]
      exact Ne.symm hne

end Subsides

/-! ## Why a pod is there -/

/-- The pod is there after the answer. -/
def Granted (r : Except ApiError Unit) : Prop := ∀ err, r = .error err → err.reason = .alreadyExists

/-- An attempt is recorded as running once its pod has been created. -/
def Provided (t : AgentTask) (tr : List (Event ApiOp.Resp)) : ApiOp → Prop
  | .updateTaskStatus t' => t.status.phase = .pending → t'.status.phase = .running →
    ∃ agent r, (⟨.createPod (podFor t agent), r⟩ : Event ApiOp.Resp) ∈ tr ∧ Granted r
  | _ => True

section Follows
variable {t : AgentTask} {tr : List (Event ApiOp.Resp)}

theorem updateAgentStatus_provided (agentName ns : String) :
    (updateAgentStatus agentName ns).Follows (Provided t) tr :=
  (updateAgentStatus_elsewhere agentName ns).follows fun _ o ho => by cases o <;> trivial

theorem recordRunning_provided {agent : Agent} {r : Except ApiError Unit} (podName : String)
    (hcreated : (⟨.createPod (podFor t agent), r⟩ : Event ApiOp.Resp) ∈ tr) (hr : Granted r) :
    (recordRunning t podName).Follows (Provided t) tr := by
  refine ⟨trivial, fun time => ⟨fun _ _ => ?_, fun r' => ?_⟩⟩
  · exact ⟨agent, r, List.mem_append_left _ hcreated, hr⟩
  · cases r' with
    | error err => trivial
    | ok _ => exact (updateAgentStatus_provided _ _).bind fun _ _ _ => trivial

theorem postpone_provided (ht : t.status.phase = .pending) (message : String) :
    (postpone t message).Follows (Provided t) tr := by
  refine ⟨fun _ hrunning => ?_, fun _ => trivial⟩
  rw [AgentTask.withStatus, ht] at hrunning
  cases hrunning

theorem handlePending_provided (ht : t.status.phase = .pending) :
    (handlePending t).Follows (Provided t) [] := by
  refine ⟨trivial, fun r => ?_⟩
  cases r with
  | error err => exact postpone_provided ht _
  | ok agent =>
    refine ⟨trivial, fun r => ?_⟩
    cases r with
    | error err => trivial
    | ok _ =>
      refine ⟨trivial, fun r => ?_⟩
      have hcreated : (⟨.createPod (podFor t agent), r⟩ : Event ApiOp.Resp) ∈
          [⟨.getAgent ⟨t.spec.agentRef, t.ns⟩, .ok agent⟩] ++
            [⟨.setControllerReference t (buildWorkerPod t agent
              (Go.marshal (taskPayload t agent).toJson)), .ok ()⟩] ++
            [⟨.createPod (podFor t agent), r⟩] := by simp
      cases r with
      | ok _ => exact recordRunning_provided _ hcreated nofun
      | error err =>
        change Follows (Provided t) (if err.reason = .alreadyExists then _ else _) _
        split
        · next hexists =>
          refine recordRunning_provided _ hcreated ?_
          rintro _ ⟨⟩
          exact hexists
        · exact postpone_provided ht _

theorem dispatch_provided (t : AgentTask) : (dispatch t).Follows (Provided t) [] := by
  by_cases ht : t.status.phase = .pending
  · rw [dispatch, ht]
    exact handlePending_provided ht
  · apply (dispatch_uses t).follows
    intro tr o _
    cases o with
    | updateTaskStatus t' => exact fun hpending => absurd hpending ht
    | _ => trivial

end Follows

theorem RunningWrite.looked {t : AgentTask} {tr : List (Event ApiOp.Resp)} {b : AgentTaskStatus}
    (h : RunningWrite t tr b) :
    ∃ r, (⟨.getPod t.podKey, r⟩ : Event ApiOp.Resp) ∈ tr ∧ Answered r := by
  cases h with
  | @disappeared err hgone =>
    refine ⟨.error err, List.mem_singleton_self _, ?_⟩
    rintro _ ⟨⟩
    exact hgone
  | @podFailed pod => exact ⟨.ok pod, List.mem_cons_self, nofun⟩
  | @podSucceeded pod => exact ⟨.ok pod, List.mem_cons_self, nofun⟩
  | @answered pod => exact ⟨.ok pod, List.mem_cons_self, nofun⟩

/-- A running task fails for the want of its pod only if the pod was not found. -/
theorem RunningWrite.disappears {t : AgentTask} {tr : List (Event ApiOp.Resp)} {b : AgentTaskStatus}
    (h : RunningWrite t tr b) (ht : t.status.phase = .running) (hphase : b.phase = .failed)
    (hreason : b.lastFailureReason = "pod_disappeared") :
    ∃ err, (⟨.getPod t.podKey, .error err⟩ : Event ApiOp.Resp) ∈ tr ∧ err.reason = .notFound := by
  cases h with
  | @disappeared err hgone => exact ⟨err, List.mem_singleton_self _, hgone⟩
  | podFailed => simp at hreason
  | podSucceeded => simp at hphase
  | @answered pod reply status rest _ _ _ _ hreported =>
    cases hreported with
    | succeeded => simp at hphase
    | incomplete => simp at hreason
    | failed =>
      have hother : failureReason status ∈ ["rate_limited", "worker_failed"] := by
        unfold failureReason
        split
        · simp
        · split <;> simp
      have hsame : failureReason status = "pod_disappeared" := hreason
      rw [hsame] at hother
      simp at hother
    | unfinished =>
      rw [polledStatus, ht] at hphase
      cases hphase

/-! ## What holds in every state -/

/-- In every state of a run: the pod of an attempt that has begun has been there. -/
structure CacheInv (task : AgentTask) (w : Caches × List StatusWrite) : Prop where
  lifecycle : TaskInv task.spec w.1.store
  attended : ∀ a ∈ w.1.store.versions, Attended task a
  existed : ∀ a ∈ w.1.store.versions, a.phase ∉ [Phase.unset, .pending] →
    ∃ p ∈ w.1.pods.versions, HasPod (attemptPod task a) p
  accounted : PodsAccounted task w

/-- What the answers to a Reconcile on status `a` have established. -/
structure Established (a : AgentTaskStatus) (tr : List (Event ApiOp.Resp))
    (w : Caches × List StatusWrite) : Prop where
  seen : a.phase = .running → ∀ key r, (⟨.getPod key, r⟩ : Event ApiOp.Resp) ∈ tr → Answered r →
    ¬ Unseen w.1.pods key.name
  gone : a.phase = .running → ∀ key err, (⟨.getPod key, .error err⟩ : Event ApiOp.Resp) ∈ tr →
    err.reason = .notFound → ¬ HasPod key.name w.1.pods.current
  created : ∀ pod r, (⟨.createPod pod, r⟩ : Event ApiOp.Resp) ∈ tr → Granted r →
    ∃ p ∈ w.1.pods.versions, HasPod pod.name p

theorem CacheInv.start (task : AgentTask) : CacheInv task (Caches.start, []) := by
  refine ⟨TaskInv.start task.spec, ?_, ?_, ?_, ?_⟩
  · intro a ha
    have hempty : a = .empty := by simpa [Caches.start] using ha
    intro hphase
    exact absurd hphase (by simp [hempty, AgentTaskStatus.empty])
  · intro a ha hphase
    have hempty : a = .empty := by simpa [Caches.start] using ha
    exact absurd hphase (by simp [hempty, AgentTaskStatus.empty])
  · intro e he
    cases he
  · rintro name ⟨m, a, b, _, _, hb, _⟩
    have hlength := (List.getElem?_eq_some_iff.mp hb).1
    simp [Caches.start] at hlength

section Steps
variable {a : AgentTaskStatus} {tr : List (Event ApiOp.Resp)} {w w' : Caches × List StatusWrite}

/-- What is neither a creation nor a write of the status. -/
theorem CacheInv.subside (h : CacheInv task w) (hlifecycle : TaskInv task.spec w'.1.store)
    (hversions : w'.1.store.versions = w.1.store.versions) (hpods : Subsides w.1.pods w'.1.pods)
    (hwrites : w'.2 = w.2) : CacheInv task w' := by
  refine ⟨hlifecycle, ?_, ?_, ?_, ?_⟩
  · rw [hversions]
    exact h.attended
  · rw [hversions]
    exact fun a ha hphase => hpods.existed (h.existed a ha hphase)
  · rw [hwrites]
    exact h.accounted.disappeared
  · rw [Versioned.current_congr hversions]
    exact fun name hunseen => h.accounted.tracked name (hpods.unseen hunseen)

theorem Established.subside (h : Established a tr w) (hpods : Subsides w.1.pods w'.1.pods) :
    Established a tr w' where
  seen ha key r hin hr := mt hpods.unseen (h.seen ha key r hin hr)
  gone ha key err hin hr := hpods.gone (h.gone ha key err hin hr)
  created pod r hin hr := hpods.existed (h.created pod r hin hr)

theorem subsides_drift (hd : (seeingEnv task).drift w w') : Subsides w.1.pods w'.1.pods := by
  obtain ⟨⟨_, p, hchurn, hpods⟩, _⟩ := hd
  rw [hpods]
  exact .write fun _ => hchurn.hasPod

theorem CacheInv.drift (h : CacheInv task w) (hd : (seeingEnv task).drift w w') :
    CacheInv task w' := by
  have hpods := subsides_drift hd
  obtain ⟨⟨hstore, _⟩, hm⟩ := hd
  refine h.subside ?_ (by rw [hstore]) hpods hm
  rw [hstore]
  exact h.lifecycle

theorem mem_concat {e : Event ApiOp.Resp} {o : ApiOp} {r : o.Resp} (h : e ∈ tr ++ [⟨o, r⟩]) :
    e ∈ tr ∨ e = ⟨o, r⟩ := by simpa using h

theorem same_store {n : Nat} {o : ApiOp} {r : o.Resp} (ha : w.1.store.versions[n]? = some a)
    (hn : w.1.store.seen = n) (ho : MayCall true (task.version n a) o)
    (hother : ∀ t, o ≠ .updateTaskStatus t) (hans : (seeingEnv task).answer w o r w') :
    w'.1.store = w.1.store ∧ w'.2 = w.2 := by
  subst hn
  constructor
  · rcases hans.1.1.1.cases ha ho with hsame | ⟨b, hb, _⟩
    · exact hsame
    · exact absurd hb (hother _)
  · rw [hans.1.2]
    cases o with
    | updateTaskStatus t => exact absurd rfl (hother t)
    | _ => rfl

/-- A pod is created for an attempt that has not begun. -/
theorem CacheInv.create (h : CacheInv task w) (ha : w.1.store.versions[w.1.store.seen]? = some a)
    {pod : Pod} {r : Except ApiError Unit}
    (ho : MayCall true (task.version w.1.store.seen a) (.createPod pod))
    (hans : (seeingEnv task).answer w (.createPod pod) r w') : CacheInv task w' := by
  have hother : ∀ t, ApiOp.createPod pod ≠ .updateTaskStatus t := by
    intro t ht
    cases ht
  obtain ⟨hstore, hwrites⟩ := same_store ha rfl ho hother hans
  rcases hans.1.1.2.cases with hpods | ⟨_, hpod, hpods⟩
  · exact h.subside (hstore ▸ h.lifecycle) (by rw [hstore]) hpods hwrites
  cases hpod
  obtain ⟨hpending, agent, rfl⟩ := ho
  rw [version_status] at hpending
  have hretry : w.1.store.current.retryCount = a.retryCount := by
    apply h.lifecycle.retryCount_current ha
    intro hfailed
    rw [hpending] at hfailed
    cases hfailed
  have hphase : w.1.store.current.phase = .pending ∨ w.1.store.current.phase = .running := by
    rcases h.lifecycle.current_cases ha with hsame | hmove
    · exact Or.inl (hsame ▸ hpending)
    · have hmoved := hmove.phase
      rw [hpending] at hmoved
      generalize w.1.store.current.phase = q at hmoved ⊢
      rcases hmoved with hq | hq
      · exact Or.inl hq
      · cases hq
        exact Or.inr rfl
  refine ⟨hstore ▸ h.lifecycle, hstore ▸ h.attended, ?_, ?_, ?_⟩
  · rw [hstore, hpods]
    intro b hb hbegun
    obtain ⟨p, hp, hhas⟩ := h.existed b hb hbegun
    exact ⟨p, (Versioned.prefix_write _ _).subset hp, hhas⟩
  · rw [hwrites]
    exact h.accounted.disappeared
  · rw [hstore, hpods]
    intro name hunseen
    rcases unseen_add hunseen with hunseen | rfl
    · exact h.accounted.tracked name hunseen
    · refine ⟨?_, hphase⟩
      rw [attemptPod, hretry]
      rfl

section Write
variable {n : Nat} {b : AgentTaskStatus} (h : CacheInv task w) (hheld : Established a tr w)
  (ha : a ∈ w.1.store.versions) (hmove : StatusMove task.spec a b)
include h hheld ha hmove

omit hheld hmove in
theorem workerPod_of_begun (hbegun : a.phase ∉ [Phase.unset, .pending]) :
    a.workerPod = attemptPod task a := h.attended a ha hbegun

omit h hheld ha in
/-- The attempt is the same unless a failed one is followed by the next. -/
theorem attemptPod_eq (hphase : a.phase ≠ .failed ∨ b.phase ≠ .pending) :
    attemptPod task b = attemptPod task a := by
  have hretry : b.retryCount = a.retryCount := by
    rw [hmove.retry, if_neg]
    rintro ⟨hfailed, hpending⟩
    rcases hphase with hp | hp
    · exact hp hfailed
    · exact hp hpending
  rw [attemptPod, hretry]

omit hmove in
theorem not_unseen_of_looked (hcurrent : w.1.store.current = a) (hrunning : a.phase = .running)
    (hwrite : RunningWrite (task.version n a) tr b) (name : String) : ¬ Unseen w.1.pods name := by
  intro hunseen
  obtain ⟨r, hin, hr⟩ := hwrite.looked
  have hname := (h.accounted.tracked name hunseen).1
  have hpod : a.workerPod = attemptPod task a :=
    workerPod_of_begun h ha (by simp [hrunning])
  apply hheld.seen hrunning _ r hin hr
  change Unseen w.1.pods a.workerPod
  rwa [hpod, ← hcurrent, ← hname]

/-- What is unseen belongs to the attempt that is written. -/
theorem ofAttempt_write (hcurrent : w.1.store.current = a)
    (hwrite : a.phase = .running → RunningWrite (task.version n a) tr b) (name : String)
    (hunseen : Unseen w.1.pods name) : OfAttempt task b name := by
  obtain ⟨hname, hphase⟩ := h.accounted.tracked name hunseen
  rw [hcurrent] at hname hphase
  rcases hphase with hpending | hrunning
  · refine ⟨hname.trans (attemptPod_eq hmove (Or.inl (by simp [hpending]))).symm, ?_⟩
    have hmoved := hmove.phase
    rw [hpending] at hmoved
    generalize b.phase = q at hmoved ⊢
    rcases hmoved with hq | hq
    · exact Or.inl hq
    · cases hq
      exact Or.inr rfl
  · exact absurd hunseen
      (not_unseen_of_looked h hheld ha hcurrent hrunning (hwrite hrunning) name)

/-- An attempt that begins, or has begun, has had its pod. -/
theorem existed_write (hprovided : a.phase = .pending → b.phase = .running →
      ∃ agent r, (⟨.createPod (podFor (task.version n a) agent), r⟩ : Event ApiOp.Resp) ∈ tr ∧
        Granted r)
    (hbegun : b.phase ∉ [Phase.unset, .pending]) :
    ∃ p ∈ w.1.pods.versions, HasPod (attemptPod task b) p := by
  have hphase := hmove.phase
  have hsame : attemptPod task b = attemptPod task a :=
    attemptPod_eq hmove (Or.inr fun hb => hbegun (by simp [hb]))
  rw [hsame]
  by_cases hold : a.phase ∈ [Phase.unset, .pending]
  · have hmoved : a.phase = .pending ∧ b.phase = .running := by
      generalize a.phase = p at hold hphase ⊢
      generalize b.phase = q at hbegun hphase ⊢
      rcases hphase with hq | hq
      · exact absurd (hq ▸ hold) hbegun
      · cases hq with
        | run => exact ⟨rfl, rfl⟩
        | accept => simp at hbegun
        | _ => simp at hold
    obtain ⟨agent, r, hin, hr⟩ := hprovided hmoved.1 hmoved.2
    exact hheld.created _ r hin hr
  · exact h.existed a ha hold

theorem lost_of_disappears (hwrite : a.phase = .running → RunningWrite (task.version n a) tr b)
    (hb : Attended task b) (hbefore : a.phase ≠ .failed) (hafter : b.phase = .failed)
    (hreason : b.lastFailureReason = "pod_disappeared") : Lost w.1.pods b.workerPod := by
  have hrunning : a.phase = .running := by
    have hmoved := hmove.phase
    rw [hafter] at hmoved
    rcases hmoved with hsame | hmoved
    · exact absurd hsame.symm hbefore
    · generalize a.phase = p at hmoved
      cases hmoved
      rfl
  have hbegun : a.phase ∉ [Phase.unset, .pending] := by simp [hrunning]
  have hpod : b.workerPod = attemptPod task a :=
    (hb (by simp [hafter])).trans (attemptPod_eq hmove (Or.inl hbefore))
  obtain ⟨err, hin, herr⟩ := (hwrite hrunning).disappears hrunning hafter hreason
  rw [hpod]
  refine ⟨h.existed a ha hbegun, ?_⟩
  have hgone := hheld.gone hrunning _ err hin herr
  rwa [← workerPod_of_begun h ha hbegun]

end Write

theorem CacheInv.write (h : CacheInv task w) (hheld : Established a tr w)
    (ha : w.1.store.versions[w.1.store.seen]? = some a) {t : AgentTask} {r : Except ApiError Unit}
    (ho : Justified (task.version w.1.store.seen a) tr (.updateTaskStatus t))
    (hprovided : Provided (task.version w.1.store.seen a) tr (.updateTaskStatus t))
    (hans : (seeingEnv task).answer w (.updateTaskStatus t) r w') : CacheInv task w' := by
  obtain ⟨⟨⟨hserve, hpods⟩, hwrites⟩, _⟩ := hans
  have hpods : w'.1.pods = w.1.pods := hpods
  have hin : a ∈ w.1.store.versions := List.mem_of_getElem? ha
  have hlifecycle := h.lifecycle.serve hserve ha ho.1
  obtain ⟨b, rfl, hmay⟩ := ho.1
  have hmove := hmay.statusMove (h.lifecycle.known hin)
  have hb : Attended task b := hmay.attended (h.lifecycle.known hin) (h.attended a hin)
  have hwrite : a.phase = .running →
      RunningWrite (task.version w.1.store.seen a) tr b := by
    intro hrunning
    obtain ⟨b', heq, hwrite⟩ := ho.running hrunning
    have hb' : b = b' := congrArg AgentTask.status heq
    rwa [hb']
  have hrecord : w'.2 = if w.1.store.Accepts w.1.store.seen then
      w.2 ++ [⟨w.1.store.current, b, w.1.pods⟩] else w.2 := hwrites
  have hdisappeared : ∀ e ∈ w'.2, e.Disappears → Lost e.pods e.after.workerPod := by
    intro e he
    rw [hrecord] at he
    split at he
    · next hacc =>
      rcases List.mem_append.mp he with he | he
      · exact h.accounted.disappeared e he
      · rw [List.mem_singleton.mp he]
        rintro ⟨hbefore, hafter, hreason⟩
        have hcurrent : w.1.store.current = a := hacc.current ha
        rw [hcurrent] at hbefore
        exact lost_of_disappears h hheld hin hmove hwrite hb hbefore hafter hreason
    · exact h.accounted.disappeared e he
  rcases hserve.cases ha ho.1 with hsame | ⟨c, hc, _, hcurrent, _, hstore⟩
  · refine ⟨hlifecycle, ?_, ?_, hdisappeared, ?_⟩
    · rw [hsame]
      exact h.attended
    · rw [hsame, hpods]
      exact h.existed
    · rw [hsame, hpods]
      exact h.accounted.tracked
  · have hbc : b = c := congrArg AgentTask.status (ApiOp.updateTaskStatus.inj hc)
    subst hbc
    refine ⟨hlifecycle, ?_, ?_, hdisappeared, ?_⟩
    · rw [hstore]
      intro d hd
      rcases Versioned.mem_write hd with hd | rfl
      · exact h.attended d hd
      · exact hb
    · rw [hstore, hpods]
      intro d hd hbegun
      rcases Versioned.mem_write hd with hd | rfl
      · exact h.existed d hd hbegun
      · exact existed_write h hheld hin hmove hprovided hbegun
    · rw [hstore, hpods, Versioned.write_current]
      exact ofAttempt_write h hheld hin hmove hcurrent hwrite

theorem Established.call (hheld : Established a tr w)
    (ha : w.1.store.versions[w.1.store.seen]? = some a) {o : ApiOp} {r : o.Resp}
    (ho : MayCall true (task.version w.1.store.seen a) o)
    (hans : (seeingEnv task).answer w o r w') : Established a (tr ++ [⟨o, r⟩]) w' := by
  have hpods := hans.1.1.2
  have hold : ∀ pod, o = .createPod pod → a.phase ≠ .running := by
    rintro pod rfl hrunning
    have hpending : a.phase = .pending := ho.1
    rw [hrunning] at hpending
    cases hpending
  have hexisted : ∀ {name}, (∃ p ∈ w.1.pods.versions, HasPod name p) →
      ∃ p ∈ w'.1.pods.versions, HasPod name p := by
    rintro name ⟨p, hp, hhas⟩
    rcases hpods.cases with hsubsides | ⟨_, _, hadd⟩
    · exact hsubsides.existed ⟨p, hp, hhas⟩
    · rw [hadd]
      exact ⟨p, (Versioned.prefix_write _ _).subset hp, hhas⟩
  have hsubsides : a.phase = .running → Subsides w.1.pods w'.1.pods := by
    intro hrunning
    rcases hpods.cases with hsubsides | ⟨pod, hpod, _⟩
    · exact hsubsides
    · exact absurd hrunning (hold pod hpod)
  constructor
  · intro hrunning key r' hin hr'
    rcases mem_concat hin with hin | heq
    · exact mt (hsubsides hrunning).unseen (hheld.seen hrunning key r' hin hr')
    · cases heq
      exact hans.2 (by rw [ha, Option.map_some, hrunning]) hr'
  · intro hrunning key err hin herr
    rcases mem_concat hin with hin | heq
    · exact (hsubsides hrunning).gone (hheld.gone hrunning key err hin herr)
    · cases heq
      have hseen : ¬ Unseen w'.1.pods key.name := by
        apply hans.2 (by rw [ha, Option.map_some, hrunning])
        rintro _ ⟨⟩
        exact herr
      rcases hpods with ⟨_, n, p, hserves, hnone, hread⟩ | ⟨hother, _⟩
      · rw [hread] at hseen ⊢
        exact Versioned.not_current_of_not_arises hseen hserves.2 (not_not.mpr hnone)
      · exact absurd herr hother
  · intro pod r' hin hr'
    rcases mem_concat hin with hin | heq
    · exact hexisted (hheld.created pod r' hin hr')
    · cases heq
      cases r' with
      | ok _ =>
        refine ⟨_, w'.1.pods.current_mem, ?_⟩
        rw [hpods.2, Versioned.write_current]
        intro hnone
        exact Pods.find_eq_none.mp hnone pod (List.mem_append_right _ (List.mem_singleton_self _)) rfl
      | error err => exact hexisted ⟨_, w.1.pods.current_mem, hpods.1 (hr' err rfl)⟩

/-- One call of the Reconcile. -/
theorem CacheInv.call (h : CacheInv task w) (hheld : Established a tr w)
    (ha : w.1.store.versions[w.1.store.seen]? = some a) {o : ApiOp} {r : o.Resp}
    (ho : Justified (task.version w.1.store.seen a) tr o)
    (hprovided : Provided (task.version w.1.store.seen a) tr o)
    (hans : (seeingEnv task).answer w o r w') : CacheInv task w' := by
  by_cases hwrite : ∃ t, o = .updateTaskStatus t
  · obtain ⟨t, rfl⟩ := hwrite
    exact h.write hheld ha ho hprovided hans
  by_cases hcreate : ∃ pod, o = .createPod pod
  · obtain ⟨pod, rfl⟩ := hcreate
    exact h.create ha ho.1 hans
  obtain ⟨hstore, hwrites⟩ := same_store ha rfl ho.1 (fun t ht => hwrite ⟨t, ht⟩) hans
  rcases hans.1.1.2.cases with hpods | ⟨pod, hpod, _⟩
  · exact h.subside (hstore ▸ h.lifecycle) (by rw [hstore]) hpods hwrites
  · exact absurd ⟨pod, hpod⟩ hcreate

theorem CacheInv.read (h : CacheInv task w) {r : Except ApiError AgentTask}
    (hans : (seeingEnv task).answer w (.getTask task.key) r w') : CacheInv task w' := by
  obtain ⟨⟨⟨hserve, hpods⟩, hwrites⟩, _⟩ := hans
  have hversions : w'.1.store.versions = w.1.store.versions := by
    rcases hserve.read with hsame | ⟨n, a, _, _, hread⟩
    · rw [hsame]
    · rw [hread]
      rfl
  have hsame : w'.1.pods = w.1.pods := hpods
  exact h.subside (h.lifecycle.serve_read hserve) hversions (hsame ▸ .read (Nat.le_refl _)) hwrites

end Steps

/-- While the cache has seen the pod of a running task whenever it is looked up, an attempt fails
for the want of its pod only if it has lost it, and no pod is left behind unseen. -/
theorem pods_accounted {c : Pool Unit ApiOp ApiOp.Resp Outcome (Caches × List StatusWrite)}
    (hc : Reachable (seeingEnv task) task (Caches.start, []) c) : PodsAccounted task c.world := by
  have hok : ∀ t, (dispatch t).Follows (fun tr o => Justified t tr o ∧ Provided t tr o) [] :=
    fun t => (dispatch_follows t).and (dispatch_provided t)
  have hinv : CacheInv task c.world := by
    refine (stores_seeingEnv task).invariant_follows hok (fun _ _ _ h => h.1.1) (CacheInv task)
      Established (fun w w' h hd => h.drift hd) (fun a tr w w' h hd => h.subside (subsides_drift hd))
      ?_ ?_ (CacheInv.start task) hc
    · intro w r w' h hans
      refine ⟨h.read hans, fun n a _ => ⟨?_, ?_, ?_⟩⟩
      · intro _ key r' hin
        cases hin
      · intro _ key err hin
        cases hin
      · intro pod r' hin
        cases hin
    · intro w o r w' a tr h hheld ha ho hans
      exact ⟨h.call hheld ha ho.1 ho.2 hans, hheld.call ha ho.1.1 hans⟩
  exact hinv.accounted

/-! ## A pod that is new -/

namespace Caches

/-- The version that a cache of pods serves that lags, or does not. -/
def served (w : Caches) (lag : Bool) : Nat := if lag then w.pods.seen else w.pods.latest

/-- The task is read as it is, and whatever can succeed does. -/
def respond (task : AgentTask) (lag : Bool) (w : Caches) : (o : ApiOp) → o.Resp × Caches
  | .getTask _ =>
    if w.store.seen ≤ w.store.latest then
      (.ok (task.version w.store.latest w.store.current), { w with store := w.store.read w.store.latest })
    else (.error Behaviour.conflict, w)
  | .updateTaskStatus t =>
    if w.store.Accepts t.resourceVersion then (.ok (), { w with store := w.store.write t.status })
    else (.error Behaviour.conflict, w)
  | .getPod key =>
    match w.pods.versions[w.served lag]?, decide (w.pods.seen ≤ w.served lag) with
    | some p, true =>
      (match p.find key.name with
      | some pod => .ok pod
      | none => .error ⟨.notFound, "not found"⟩, { w with pods := w.pods.read (w.served lag) })
    | _, _ => (.error Behaviour.conflict, w)
  | .createPod pod =>
    if w.pods.current.find pod.name = none then
      (.ok (), { w with pods := w.pods.write (w.pods.current.add pod) })
    else (.error ⟨.alreadyExists, "already exists"⟩, w)
  | .deletePod key =>
    if w.pods.current.find key.name = none then (.error ⟨.notFound, "not found"⟩, w)
    else (.ok (), { w with pods := w.pods.write (w.pods.current.delete key.name) })
  | .getAgent _ => (.ok demoAgent, w)
  | .listTasks _ => (.ok [], w)
  | .setControllerReference _ _ => (.ok (), w)
  | .updateAgentStatus _ => (.ok (), w)
  | .httpGet _ => (demoReply [], w)
  | .httpPost _ => (demoReply [], w)
  | .now => ((0 : Time), w)

theorem answer_respond (task : AgentTask) (lag : Bool) (w : Caches) (o : ApiOp) :
    (caches task).answer w o (w.respond task lag o).1 (w.respond task lag o).2 := by
  cases o with
  | getTask key =>
    by_cases h : w.store.seen ≤ w.store.latest
    · simp only [respond, if_pos h]
      exact ⟨⟨_, _, rfl, ⟨h, w.store.current_eq_getElem?⟩, rfl⟩, rfl⟩
    · simp only [respond, if_neg h]
      exact ⟨⟨by simp [Behaviour.conflict], rfl⟩, rfl⟩
  | updateTaskStatus t =>
    by_cases h : w.store.Accepts t.resourceVersion
    · simp only [respond, if_pos h]
      exact ⟨⟨h, rfl⟩, rfl⟩
    · simp only [respond, if_neg h]
      exact ⟨Or.inl rfl, rfl⟩
  | getPod key =>
    simp only [respond]
    split
    · next p hp hseen =>
      have hserves : w.pods.Serves (w.served lag) p := ⟨of_decide_eq_true hseen, hp⟩
      cases hfind : p.find key.name with
      | some pod => exact ⟨rfl, _, p, hserves, hfind, rfl⟩
      | none => exact ⟨rfl, Or.inl ⟨rfl, _, p, hserves, hfind, rfl⟩⟩
    · exact ⟨rfl, Or.inr ⟨by simp [Behaviour.conflict], rfl⟩⟩
  | createPod pod =>
    by_cases h : w.pods.current.find pod.name = none
    · simp only [respond, if_pos h]
      exact ⟨rfl, h, rfl⟩
    · simp only [respond, if_neg h]
      exact ⟨rfl, fun _ => h, Or.inl rfl⟩
  | deletePod key =>
    by_cases h : w.pods.current.find key.name = none
    · simp only [respond, if_pos h]
      exact ⟨rfl, Or.inl rfl⟩
    · simp only [respond, if_neg h]
      exact ⟨rfl, h, rfl⟩
  | _ => exact ⟨rfl, rfl⟩

theorem seesCreation_respond (task : AgentTask) (w : Caches × List StatusWrite) (o : ApiOp) :
    SeesCreation w o (watching (respond task false) recordWrite w o).1
      (watching (respond task false) recordWrite w o).2 := by
  cases o with
  | getPod key =>
    intro _ hanswered hunseen
    simp only [watching, respond] at hanswered hunseen
    split at hanswered
    · next p hp hseen =>
      rw [hp, hseen] at hunseen
      obtain ⟨m, a, b, hm, _, hb, _⟩ := hunseen
      have hlength := (List.getElem?_eq_some_iff.mp hb).1
      have hlatest : w.1.pods.latest ≤ m := hm
      simp only [Versioned.read_versions] at hlength
      unfold Versioned.latest at hlatest
      omega
    · have hother := hanswered _ rfl
      simp [Behaviour.conflict] at hother
  | _ => trivial

end Caches

/-- A new task is accepted, and its first attempt started. -/
def startedCaches (lag : Bool) : Caches × List StatusWrite :=
  Pool.plays (List.replicate 2 (watching (Caches.respond demoTask lag) recordWrite))
    (reconcile demoTask.key) (Caches.start, [])

/-- Its pod goes. -/
def vanishedCaches : Caches × List StatusWrite :=
  let w := startedCaches false
  ({ w.1 with pods := w.1.pods.write (w.1.pods.current.vanish "worker-t") }, w.2)

/-- The next Reconcile looks for the pod. -/
def lookedCaches (lag : Bool) (w : Caches × List StatusWrite) : Caches × List StatusWrite :=
  Pool.plays [watching (Caches.respond demoTask lag) recordWrite] (reconcile demoTask.key) w

section Reachable
variable {env : Environment ApiOp ApiOp.Resp (Caches × List StatusWrite)} {lag : Bool}
  (hanswers : ∀ w o, env.answer w o (watching (Caches.respond demoTask lag) recordWrite w o).1
    (watching (Caches.respond demoTask lag) recordWrite w o).2)
include hanswers

theorem startedCaches_reachable :
    Reachable env demoTask (Caches.start, []) (Pool.idle (startedCaches lag)) := by
  refine Pool.Reachable.plays ?_ () .refl
  intro f hf
  rw [List.eq_of_mem_replicate hf]
  exact hanswers

theorem lookedCaches_reachable {w : Caches × List StatusWrite}
    (hw : Reachable env demoTask (Caches.start, []) (Pool.idle w)) :
    Reachable env demoTask (Caches.start, []) (Pool.idle (lookedCaches lag w)) := by
  refine Pool.Reachable.plays ?_ () hw
  intro f hf
  rw [List.mem_singleton.mp hf]
  exact hanswers

end Reachable

theorem vanishedCaches_reachable :
    Reachable (seeingEnv demoTask) demoTask (Caches.start, [])
      (Pool.idle (lookedCaches false vanishedCaches)) := by
  have hanswers : ∀ w o, (seeingEnv demoTask).answer w o
      (watching (Caches.respond demoTask false) recordWrite w o).1
      (watching (Caches.respond demoTask false) recordWrite w o).2 := by
    intro w o
    exact ⟨answer_watching (Caches.answer_respond demoTask false) recordWrite w o,
      Caches.seesCreation_respond demoTask w o⟩
  have hdrift : (seeingEnv demoTask).drift (startedCaches false) vanishedCaches :=
    ⟨⟨rfl, _, .vanish _ "worker-t", rfl⟩, rfl⟩
  exact lookedCaches_reachable hanswers ((startedCaches_reachable hanswers).drift hdrift)

/-- The pod has been lost. -/
theorem pods_accounted_demo : PodsAccounted demoTask (lookedCaches false vanishedCaches) ∧
    ∃ e ∈ (lookedCaches false vanishedCaches).2, e.after.lastFailureReason = "pod_disappeared" := by
  refine ⟨pods_accounted vanishedCaches_reachable, ?_⟩
  have hlost : (lookedCaches false vanishedCaches).2.any
      (fun e => e.after.lastFailureReason = "pod_disappeared") = true := by decide +kernel
  obtain ⟨e, he, hreason⟩ := List.any_eq_true.mp hlost
  exact ⟨e, he, of_decide_eq_true hreason⟩

/-- The cache has not seen the pod yet, and the attempt fails for the want of it. -/
theorem new_pod_disappears : ∃ task c,
    Reachable ((caches task).watched recordWrite) task (Caches.start, []) c ∧
      ¬ PodsAccounted task c.world := by
  have hanswers : ∀ w o, ((caches demoTask).watched recordWrite).answer w o
      (watching (Caches.respond demoTask true) recordWrite w o).1
      (watching (Caches.respond demoTask true) recordWrite w o).2 :=
    fun w o => answer_watching (Caches.answer_respond demoTask true) recordWrite w o
  refine ⟨demoTask, Pool.idle (lookedCaches true (startedCaches true)), ?_, fun h => ?_⟩
  · exact lookedCaches_reachable hanswers (startedCaches_reachable hanswers)
  · have hnew : (lookedCaches true (startedCaches true)).2.any (fun e =>
        e.before.phase ≠ .failed ∧ e.after.phase = .failed ∧
          e.after.lastFailureReason = "pod_disappeared" ∧
            e.pods.current.find e.after.workerPod ≠ none) = true := by decide +kernel
    obtain ⟨e, he, hall⟩ := List.any_eq_true.mp hnew
    obtain ⟨hbefore, hafter, hreason, hpod⟩ := of_decide_eq_true hall
    exact (h.disappeared e he ⟨hbefore, hafter, hreason⟩).2 hpod

end BulletFarm.Operator
