import BulletFarm.Operator.Merge

/-!
# Worker pods that stay behind

A pod is accounted for once it is gone or its deletion was accepted. The task is
cleaned up before it is retried and when it ends, but a pod that cannot be read
is taken for gone, and a refused deletion is only logged. In runs without the
two no attempt leaves its pod behind.
-/

namespace BulletFarm.Operator

open Interaction Program

set_option autoImplicit false

variable {task : AgentTask}

namespace Pods

/-- Whatever pod of the name there was, it is gone or its deletion was accepted. -/
def Covered (p : Pods) (name : String) : Prop := p.find name = none ∨ name ∈ p.deleting

instance (p : Pods) (name : String) : Decidable (p.Covered name) :=
  inferInstanceAs (Decidable (_ ∨ _))

/-- No pod is left behind. -/
def Settled (p : Pods) : Prop := ∀ pod ∈ p.existing, pod.name ∈ p.deleting

instance (p : Pods) : Decidable p.Settled := inferInstanceAs (Decidable (∀ _ ∈ _, _))

/-- What the calls do to the pods. A read may be of an earlier state of the
cluster, and a failed request may have been carried out. -/
def Change (p : Pods) : (o : ApiOp) → o.Resp → Pods → Prop
  | .getPod key, .ok pod, p' => pod.name = key.name ∧ p' = p
  | .createPod pod, .ok _, p' => p.find pod.name = none ∧ p' = p.add pod
  | .createPod pod, .error _, p' => p' = p ∨ p.find pod.name = none ∧ p' = p.add pod
  | .deletePod key, .ok _, p' => p.find key.name ≠ none ∧ p' = p.delete key.name
  | .deletePod key, .error _, p' => p' = p ∨ p.find key.name ≠ none ∧ p' = p.delete key.name
  | _, _, p' => p' = p

/-- A pod may also go without having been deleted by the operator. -/
inductive Churn : Pods → Pods → Prop where
  | vanish (p : Pods) (name : String) : Churn p (p.vanish name)
  | report (p : Pods) (name : String) (phase : PodPhase) (podIP : String) :
      Churn p (p.report name phase podIP)

theorem find_eq_none {p : Pods} {name : String} :
    p.find name = none ↔ ∀ pod ∈ p.existing, pod.name ≠ name := by
  simp [find, List.find?_eq_none]

theorem settled_iff {p : Pods} : p.Settled ↔ ∀ name, p.Covered name := by
  constructor
  · intro h name
    by_cases hfind : p.find name = none
    · exact Or.inl hfind
    · obtain ⟨pod, hpod⟩ := Option.ne_none_iff_exists'.mp hfind
      have hname := List.find?_some hpod
      simp only [decide_eq_true_eq] at hname
      exact Or.inr (hname ▸ h pod (List.mem_of_find?_eq_some hpod))
  · intro h pod hpod
    rcases h pod.name with hfind | hdeleting
    · exact absurd rfl (find_eq_none.mp hfind pod hpod)
    · exact hdeleting

theorem Covered.delete {p : Pods} {name : String} (h : p.Covered name) (other : String) :
    (p.delete other).Covered name :=
  h.imp id (List.mem_cons_of_mem _)

theorem Covered.add {p : Pods} {name : String} (h : p.Covered name) {pod : Pod}
    (hne : name ≠ pod.name) : (p.add pod).Covered name := by
  apply h.imp _ id
  intro hfind
  rw [find_eq_none] at hfind ⊢
  intro other hother
  rcases List.mem_append.mp hother with hother | hother
  · exact hfind other hother
  · rw [List.mem_singleton.mp hother]
    exact Ne.symm hne

theorem Covered.churn {p p' : Pods} {name : String} (h : p.Covered name) (hd : p.Churn p') :
    p'.Covered name := by
  cases hd with
  | vanish other =>
    by_cases hname : name = other
    · left
      rw [find_eq_none]
      intro pod hpod
      have hne := (List.mem_filter.mp hpod).2
      simpa [hname] using hne
    · refine h.imp (fun hfind => ?_) fun hdeleting => ?_
      · rw [find_eq_none] at hfind ⊢
        exact fun pod hpod => hfind pod (List.mem_filter.mp hpod).1
      · exact List.mem_filter.mpr ⟨hdeleting, by simpa using hname⟩
  | report other phase podIP =>
    refine h.imp (fun hfind => ?_) id
    rw [find_eq_none] at hfind ⊢
    intro pod hpod
    obtain ⟨old, hold, rfl⟩ := List.mem_map.mp hpod
    split
    · exact hfind old hold
    · exact hfind old hold

theorem Change.covered {p p' : Pods} {o : ApiOp} {r : o.Resp} (h : p.Change o r p')
    {name : String} (hcovered : p.Covered name) :
    p'.Covered name ∨ ∃ pod, o = .createPod pod ∧ name = pod.name := by
  cases o with
  | getPod key =>
    left
    cases r with
    | ok pod => exact h.2 ▸ hcovered
    | error err => exact h ▸ hcovered
  | createPod pod =>
    by_cases hname : name = pod.name
    · exact Or.inr ⟨pod, rfl, hname⟩
    · left
      cases r with
      | ok _ => exact h.2 ▸ hcovered.add hname
      | error err =>
        rcases h with rfl | ⟨_, rfl⟩
        · exact hcovered
        · exact hcovered.add hname
  | deletePod key =>
    left
    cases r with
    | ok _ => exact h.2 ▸ hcovered.delete _
    | error err =>
      rcases h with rfl | ⟨_, rfl⟩
      · exact hcovered
      · exact hcovered.delete _
  | _ => exact Or.inl (h ▸ hcovered)

theorem Change.kept {p p' : Pods} {o : ApiOp} {r : o.Resp} (h : p.Change o r p')
    (ho : ∀ pod, o ≠ .createPod pod) {name : String} (hcovered : p.Covered name) :
    p'.Covered name := by
  rcases h.covered hcovered with hcovered | ⟨pod, rfl, _⟩
  · exact hcovered
  · exact absurd rfl (ho pod)

theorem Settled.kept {p p' : Pods} {o : ApiOp} {r : o.Resp} (h : p.Settled)
    (hchange : p.Change o r p') (ho : ∀ pod, o ≠ .createPod pod) : p'.Settled :=
  settled_iff.mpr fun name => hchange.kept ho (settled_iff.mp h name)

theorem Settled.churn {p p' : Pods} (h : p.Settled) (hd : p.Churn p') : p'.Settled :=
  settled_iff.mpr fun name => (settled_iff.mp h name).churn hd

theorem Churn.existing {p p' : Pods} (h : p.Churn p') {pod' : Pod} (hpod : pod' ∈ p'.existing) :
    ∃ pod ∈ p.existing, pod'.name = pod.name ∧ pod'.env = pod.env := by
  cases h with
  | vanish name => exact ⟨pod', (List.mem_filter.mp hpod).1, rfl, rfl⟩
  | report name phase podIP =>
    obtain ⟨pod, hold, rfl⟩ := List.mem_map.mp hpod
    refine ⟨pod, hold, ?_⟩
    split
    · exact ⟨rfl, rfl⟩
    · exact ⟨rfl, rfl⟩

theorem Change.existing {p p' : Pods} {o : ApiOp} {r : o.Resp} (h : p.Change o r p') {pod : Pod}
    (hpod : pod ∈ p'.existing) : pod ∈ p.existing ∨ o = .createPod pod := by
  have hadd : ∀ {other : Pod}, pod ∈ (p.add other).existing → pod ∈ p.existing ∨
      ApiOp.createPod other = .createPod pod := by
    intro other h
    rcases List.mem_append.mp h with h | h
    · exact Or.inl h
    · exact Or.inr (by rw [List.mem_singleton.mp h])
  cases o with
  | getPod key =>
    cases r with
    | ok _ => exact Or.inl (h.2 ▸ hpod)
    | error _ => exact Or.inl (h ▸ hpod)
  | createPod other =>
    cases r with
    | ok _ => exact hadd (h.2 ▸ hpod)
    | error _ =>
      rcases h with rfl | ⟨_, rfl⟩
      · exact Or.inl hpod
      · exact hadd hpod
  | deletePod key =>
    cases r with
    | ok _ =>
      rw [h.2] at hpod
      exact Or.inl hpod
    | error _ =>
      rcases h with rfl | ⟨_, rfl⟩
      · exact Or.inl hpod
      · exact Or.inl hpod
  | _ => exact Or.inl (h ▸ hpod)

end Pods

/-! ## The run -/

/-- The persisted task and the pods made for it. Nothing is said about the other
answers the operator gets. -/
structure Estate where
  store : Versioned AgentTaskStatus
  pods : Pods
deriving DecidableEq

def Estate.start : Estate := ⟨Versioned.start .empty, ⟨[], []⟩⟩

def estate (task : AgentTask) : Environment ApiOp ApiOp.Resp Estate where
  answer e o r e' := Serve task e.store o r e'.store ∧ e.pods.Change o r e'.pods
  drift e e' := e'.store = e.store ∧ e.pods.Churn e'.pods

/-- A history: the status the Reconcile at work has read, whether that was its last
call, the attempt a pod was last asked for, and whether a pod was ever asked for
while one of another name was left. -/
structure Ledger where
  holding : Option AgentTaskStatus := none
  fresh : Bool := false
  requested : Option Int := none
  crowded : Bool := false
deriving DecidableEq

def ledger (m : Ledger) (e : Estate) (o : ApiOp) (r : o.Resp) : Ledger :=
  match o, r with
  | .getTask _, .ok t => { m with holding := some t.status, fresh := true }
  | .getTask _, .error _ => { m with holding := none, fresh := false }
  | .createPod pod, _ => { m with
      fresh := false
      requested := m.holding.map AgentTaskStatus.retryCount
      crowded := m.crowded ||
        decide (∃ other ∈ e.pods.existing, other.name ≠ pod.name ∧ other.name ∉ e.pods.deleting) }
  | _, _ => { m with fresh := false }

/-- A pod that is left is found when it is to be deleted, and is found up when its
worker is to be asked about the pull request; its deletion is carried out. -/
def Tidies (w : Estate × Ledger) : (o : ApiOp) → o.Resp → Estate × Ledger → Prop
  | .getPod key, r, _ => ¬ w.1.pods.Covered key.name → ∀ a ∈ w.2.holding,
      (a.phase ∈ [Phase.completed, .waitingForPR, .failed] → r.isOk = true) ∧
      (w.2.fresh = true → Waiting a → Up r)
  | .deletePod key, _, w' => ¬ w.1.pods.Covered key.name → w'.1.pods.Covered key.name
  | _, _, _ => True

instance (w : Estate × Ledger) (o : ApiOp) (r : o.Resp) (w' : Estate × Ledger) :
    Decidable (Tidies w o r w') :=
  match o, r with
  | .getPod key, r => inferInstanceAs (Decidable (¬ w.1.pods.Covered key.name →
      ∀ a ∈ w.2.holding, (a.phase ∈ [Phase.completed, .waitingForPR, .failed] → r.isOk = true) ∧
        (w.2.fresh = true → Waiting a → Up r)))
  | .deletePod key, _ => inferInstanceAs (Decidable (¬ w.1.pods.Covered key.name →
      w'.1.pods.Covered key.name))
  | .getTask _, _ | .getAgent _, _ | .listTasks _, _ | .setControllerReference _ _, _
  | .createPod _, _ | .updateTaskStatus _, _ | .updateAgentStatus _, _
  | .httpGet _, _ | .httpPost _, _ | .now, _ => isTrue trivial

abbrev tidyEnv (task : AgentTask) : Environment ApiOp ApiOp.Resp (Estate × Ledger) :=
  ((estate task).watched ledger).restrict Tidies

/-- The Reconcile that led from `w` to `w'` is the task's last: it has merged or
closed the task, or has found it failed for good. -/
def Concludes (spec : AgentTaskSpec) (w w' : Estate × Ledger) : Prop :=
  (∃ a ∈ w'.2.holding, a.phase = .failed ∧ maxRetries spec ≤ a.retryCount) ∨
  w'.1.store.versions ≠ w.1.store.versions ∧ w'.1.store.current.phase ∈ [Phase.merged, .closed]

/-! ## What holds of the pods -/

/-- The pod of the attempt a status is about. -/
abbrev attemptPod (task : AgentTask) (s : AgentTaskStatus) : String :=
  workerPodName task.name s.retryCount

/-- From its start on an attempt names its pod. -/
def Attended (task : AgentTask) (s : AgentTaskStatus) : Prop :=
  s.phase ∉ [Phase.unset, .pending] → s.workerPod = attemptPod task s

theorem MayWrite.attended {n : Nat} {a b : AgentTaskStatus} (h : MayWrite (task.version n a) b)
    (hknown : a.phase.Known) (ha : Attended task a) : Attended task b := by
  unfold MayWrite at h
  unfold Attended at *
  split at h
  · subst h
    simp
  · rename_i ht
    rcases h with ⟨message, rfl⟩ | ⟨time, message, rfl⟩
    · rw [version_status] at ht
      simp [ht]
    · simp
  · rename_i ht
    rw [version_status] at ht
    have hpod : a.workerPod = attemptPod task a := ha (by simp [ht])
    rcases h with ⟨message, reason, _, rfl⟩ | ⟨time, message, rfl⟩ | ⟨status, h⟩
    · exact fun _ => hpod
    · exact fun _ => hpod
    · rcases h with rfl | ⟨time, message, rfl⟩ | ⟨message, reason, _, rfl⟩
      · exact fun _ => hpod
      · exact fun _ => hpod
      · exact fun _ => hpod
  · rename_i ht
    rw [version_status] at ht
    have hpod : a.workerPod = attemptPod task a := ha (by simp [ht])
    rcases h with ⟨message, rfl⟩ | ⟨phase, message, prState, _, rfl⟩
    · exact fun _ => hpod
    · exact fun _ => hpod
  · rename_i ht
    rw [version_status] at ht
    have hpod : a.workerPod = attemptPod task a := ha (by simp [ht])
    rcases h with ⟨message, rfl⟩ | ⟨phase, message, prState, _, rfl⟩
    · exact fun _ => hpod
    · exact fun _ => hpod
  · rename_i ht
    rw [version_status] at ht
    have hpod : a.workerPod = attemptPod task a := ha (by simp [ht])
    rcases h with ⟨_, message, rfl⟩ | ⟨_, message, rfl⟩
    · simp
    · exact fun _ => hpod
  · exact h.elim
  · exact h.elim
  · rename_i text ht
    exact absurd ht (hknown text)

/-- In every state of a run: a pod that is not accounted for belongs to the current
attempt, and to one for which a pod has been asked for. -/
structure LeakInv (task : AgentTask) (w : Estate × Ledger) : Prop where
  lifecycle : TaskInv task.spec w.1.store
  attended : ∀ a ∈ w.1.store.versions, Attended task a
  own : ∀ name, ¬ w.1.pods.Covered name → name = attemptPod task w.1.store.current
  unrequested : w.2.requested ≠ some w.1.store.current.retryCount → w.1.pods.Settled
  uncrowded : w.2.crowded = false

/-- The Reconcile holds version `n`, which is `a`. -/
structure Held (task : AgentTask) (n : Nat) (a : AgentTaskStatus) (w : Estate × Ledger) : Prop where
  inv : LeakInv task w
  seen : w.1.store.seen = n
  version : w.1.store.versions[n]? = some a
  holding : w.2.holding = some a

theorem LeakInv.start (task : AgentTask) : LeakInv task (Estate.start, {}) := by
  refine ⟨TaskInv.start task.spec, ?_, ?_, ?_, rfl⟩
  · intro a ha
    have hempty : a = .empty := by simpa [Estate.start] using ha
    intro hphase
    exact absurd hphase (by simp [hempty, AgentTaskStatus.empty])
  · intro name hname
    exact absurd (Or.inl rfl) hname
  · intro _ pod hpod
    simp [Estate.start] at hpod

/-- What neither writes the status nor asks for a pod keeps the invariant. -/
theorem LeakInv.change {w w' : Estate × Ledger} (h : LeakInv task w)
    (hlifecycle : TaskInv task.spec w'.1.store)
    (hversions : w'.1.store.versions = w.1.store.versions)
    (hpods : ∀ name, w.1.pods.Covered name → w'.1.pods.Covered name)
    (hrequested : w'.2.requested = w.2.requested) (hcrowded : w'.2.crowded = w.2.crowded) :
    LeakInv task w' := by
  have hcurrent := Versioned.current_congr hversions
  refine ⟨hlifecycle, ?_, ?_, ?_, ?_⟩
  · rw [hversions]
    exact h.attended
  · rw [hcurrent]
    exact fun name hname => h.own name fun hcovered => hname (hpods name hcovered)
  · rw [hcurrent, hrequested]
    intro hfresh
    have hsettled := Pods.settled_iff.mp (h.unrequested hfresh)
    exact Pods.settled_iff.mpr fun name => hpods name (hsettled name)
  · rw [hcrowded]
    exact h.uncrowded

theorem LeakInv.drift {w w' : Estate × Ledger} (h : LeakInv task w)
    (hd : (tidyEnv task).drift w w') : LeakInv task w' := by
  obtain ⟨⟨hstore, hchurn⟩, hm⟩ := hd
  apply h.change
  · rw [hstore]
    exact h.lifecycle
  · rw [hstore]
  · exact fun name hcovered => hcovered.churn hchurn
  · rw [hm]
  · rw [hm]

section Held

variable {n : Nat} {a : AgentTaskStatus} {w w' : Estate × Ledger}

theorem Held.drift (h : Held task n a w) (hd : (tidyEnv task).drift w w') : Held task n a w' := by
  refine ⟨h.inv.drift hd, ?_, ?_, ?_⟩
  · rw [hd.1.1]
    exact h.seen
  · rw [hd.1.1]
    exact h.version
  · rw [hd.2]
    exact h.holding

theorem Held.at_seen (h : Held task n a w) : w.1.store.versions[w.1.store.seen]? = some a := by
  rw [h.seen]
  exact h.version

/-- With the pod of its attempt accounted for, all are. -/
theorem Held.settled (h : Held task n a w) (hcovered : w.1.pods.Covered (attemptPod task a))
    (hretry : w.1.store.current.retryCount = a.retryCount) : w.1.pods.Settled := by
  apply Pods.settled_iff.mpr
  intro name
  by_contra hname
  have hown := h.inv.own name hname
  unfold attemptPod at hown
  rw [hretry] at hown
  exact hname (hown ▸ hcovered)

theorem Held.workerPod (h : Held task n a w) (ha : a.phase ∉ [Phase.unset, .pending]) :
    a.workerPod = attemptPod task a :=
  h.inv.attended a (List.mem_of_getElem? h.version) ha

/-- A pod is asked for by an attempt that has not begun. -/
theorem Held.create (h : Held task n a w) {pod : Pod} {r : Except ApiError Unit}
    (ho : MayCall true (task.version n a) (.createPod pod))
    (hans : (tidyEnv task).answer w (.createPod pod) r w') : LeakInv task w' := by
  obtain ⟨⟨⟨hserve, hchange⟩, hm⟩, _⟩ := hans
  obtain ⟨hpending, agent, rfl⟩ := ho
  have hstore : w'.1.store = w.1.store := hserve
  have hretry : w.1.store.current.retryCount = a.retryCount := by
    apply h.inv.lifecycle.retryCount_current h.at_seen
    intro hfailed
    rw [version_status, hfailed] at hpending
    cases hpending
  have hname : (podFor (task.version n a) agent).name = attemptPod task w.1.store.current := by
    rw [attemptPod, hretry]
    rfl
  refine ⟨?_, ?_, ?_, ?_, ?_⟩
  · rw [hstore]
    exact h.inv.lifecycle
  · rw [hstore]
    exact h.inv.attended
  · rw [hstore]
    intro name hleft
    by_cases hcovered : w.1.pods.Covered name
    · rcases hchange.covered hcovered with hnew | ⟨pod, hpod, rfl⟩
      · exact absurd hnew hleft
      · cases hpod
        exact hname
    · exact h.inv.own name hcovered
  · rw [hstore, hm, hretry]
    intro hne
    simp [ledger, h.holding] at hne
  · rw [hm]
    simp only [ledger, h.inv.uncrowded, Bool.false_or, decide_eq_false_iff_not]
    rintro ⟨other, hother, hne, hdeleting⟩
    apply hne
    rw [hname]
    apply h.inv.own
    rintro (hfind | hcovered)
    · exact Pods.find_eq_none.mp hfind other hother rfl
    · exact hdeleting hcovered

/-- A write starts a new attempt only with the pod of the last one accounted for. -/
theorem Held.write (h : Held task n a w) {t : AgentTask} {r : Except ApiError Unit}
    (ho : MayCall true (task.version n a) (.updateTaskStatus t))
    (hreset : a.phase = .failed → w.1.pods.Covered (attemptPod task a))
    (hans : (tidyEnv task).answer w (.updateTaskStatus t) r w') : LeakInv task w' := by
  obtain ⟨⟨⟨hserve, hchange⟩, hm⟩, _⟩ := hans
  have hpods : w'.1.pods = w.1.pods := hchange
  have hrequested : w'.2.requested = w.2.requested := by
    rw [hm]
    rfl
  have hcrowded : w'.2.crowded = w.2.crowded := by
    rw [hm]
    rfl
  have hseen := h.seen
  subst hseen
  have hlifecycle := h.inv.lifecycle.serve hserve h.version ho
  rcases hserve.cases h.version ho with hsame | ⟨b, _, _, hcurrent, hwrite, hstore⟩
  · apply h.inv.change hlifecycle
    · rw [hsame]
    · rw [hpods]
      exact fun name hcovered => hcovered
    · exact hrequested
    · exact hcrowded
  have hknown := h.inv.lifecycle.known (List.mem_of_getElem? h.version)
  have hmove := hwrite.statusMove hknown
  have hretry : b.retryCount = a.retryCount ∨ w.1.pods.Settled := by
    have hcount := hmove.retry
    split at hcount
    · rename_i hphase
      right
      apply h.settled (hreset hphase.1)
      rw [hcurrent]
    · exact Or.inl hcount
  refine ⟨hlifecycle, ?_, ?_, ?_, ?_⟩
  · rw [hstore]
    intro c hc
    rcases Versioned.mem_write hc with hc | rfl
    · exact h.inv.attended c hc
    · exact hwrite.attended hknown (h.inv.attended a (List.mem_of_getElem? h.version))
  · rw [hstore, Versioned.write_current, hpods]
    intro name hleft
    rcases hretry with hretry | hsettled
    · have hown := h.inv.own name hleft
      unfold attemptPod at hown ⊢
      rw [hretry, ← hcurrent]
      exact hown
    · exact absurd (Pods.settled_iff.mp hsettled name) hleft
  · rw [hstore, Versioned.write_current, hpods, hrequested]
    rcases hretry with hretry | hsettled
    · rw [hretry, ← hcurrent]
      exact h.inv.unrequested
    · exact fun _ => hsettled
  · rw [hcrowded]
    exact h.inv.uncrowded

theorem Held.call (h : Held task n a w) {o : ApiOp} {r : o.Resp}
    (ho : MayCall true (task.version n a) o)
    (hreset : ∀ t, o = .updateTaskStatus t → a.phase = .failed →
      w.1.pods.Covered (attemptPod task a))
    (hans : (tidyEnv task).answer w o r w') : Held task n a w' := by
  have hserve := hans.1.1.1
  have hm := hans.1.2
  obtain ⟨hseen, hversion⟩ := hserve.keeps_version h.at_seen (h.seen ▸ ho)
  rw [h.seen] at hseen hversion
  refine ⟨?_, hseen, hversion, ?_⟩
  · by_cases hcreate : ∃ pod, o = .createPod pod
    · obtain ⟨pod, rfl⟩ := hcreate
      exact h.create ho hans
    by_cases hwrite : ∃ t, o = .updateTaskStatus t
    · obtain ⟨t, rfl⟩ := hwrite
      exact h.write ho (hreset t rfl) hans
    have hchange := hans.1.1.2
    apply h.inv.change (h.inv.lifecycle.serve hserve h.at_seen (h.seen ▸ ho))
    · rcases hserve.cases h.at_seen (h.seen ▸ ho) with hsame | ⟨b, hb, _⟩
      · rw [hsame]
      · exact absurd ⟨_, hb⟩ hwrite
    · exact fun name hcovered => hchange.kept (fun pod hpod => hcreate ⟨pod, hpod⟩) hcovered
    · rw [hm]
      cases o with
      | createPod pod => exact absurd ⟨pod, rfl⟩ hcreate
      | getTask key => exact ho.elim
      | _ => rfl
    · rw [hm]
      cases o with
      | createPod pod => exact absurd ⟨pod, rfl⟩ hcreate
      | getTask key => exact ho.elim
      | _ => rfl
  · rw [hm]
    cases o with
    | getTask key => exact ho.elim
    | _ => exact h.holding

/-- Only a task that waits for its pull request is merged or closed. -/
theorem Held.not_ended (h : Held task n a w) (ha : ¬ Waiting a)
    (hphase : a.phase ∉ [Phase.merged, .closed]) :
    w.1.store.current.phase ∉ [Phase.merged, .closed] := by
  rcases h.inv.lifecycle.current_cases h.at_seen with hsame | hmove
  · rw [hsame]
    exact hphase
  · rcases hmove.phase with hp | hp
    · rw [hp]
      exact hphase
    · unfold Waiting at ha
      generalize a.phase = p at hp ha
      generalize w.1.store.current.phase = q at hp
      cases hp <;> simp at ha ⊢

end Held

/-! ## One Reconcile -/

section Keeping

variable {n : Nat} {a : AgentTaskStatus} {w : Estate × Ledger} {α : Type}

/-- Whatever the rest of the Reconcile does keeps the invariant and ends as `post` says. -/
abbrev KeepsPods (task : AgentTask) (post : Estate × Ledger → Prop) (p : OperatorM α)
    (w : Estate × Ledger) : Prop :=
  Keeps (tidyEnv task) (LeakInv task) (tidyEnv task).drift (fun _ _ => True) (fun _ w => post w) p w

/-- The Reconcile holds its version, and the pod of that attempt is accounted for. -/
def Cleared (task : AgentTask) (n : Nat) (a : AgentTaskStatus) (w : Estate × Ledger) : Prop :=
  Held task n a w ∧ w.1.pods.Covered (attemptPod task a)

theorem Cleared.drift {w' : Estate × Ledger} (h : Cleared task n a w)
    (hd : (tidyEnv task).drift w w') : Cleared task n a w' :=
  ⟨h.1.drift hd, h.2.churn hd.1.2⟩

theorem Cleared.call {w' : Estate × Ledger} (h : Cleared task n a w) {o : ApiOp} {r : o.Resp}
    (ho : MayCall true (task.version n a) o) (ha : a.phase ≠ .pending)
    (hans : (tidyEnv task).answer w o r w') : Cleared task n a w' := by
  refine ⟨h.1.call ho (fun _ _ _ => h.2) hans, ?_⟩
  apply hans.1.1.2.kept _ h.2
  rintro pod rfl
  exact ha ho.1

theorem keepsPods_held {p : OperatorM α} (hp : p.Uses (MayCall true (task.version n a)))
    (hw : Held task n a w) (ha : a.phase ≠ .failed) : KeepsPods task (Held task n a) p w := by
  apply Keeps.of_uses hp hw
  · exact fun w₁ w₂ h hd => h.drift hd
  · intro o ho w₁ r w₂ h hans
    have hcall := h.call ho (fun _ _ hfailed => absurd hfailed ha) hans
    exact ⟨hcall.inv, trivial, hcall⟩

theorem keepsPods_cleared {p : OperatorM α} (hp : p.Uses (MayCall true (task.version n a)))
    (hw : Cleared task n a w) (ha : a.phase ≠ .pending) :
    KeepsPods task (Cleared task n a) p w := by
  apply Keeps.of_uses hp hw
  · exact fun w₁ w₂ h hd => h.drift hd
  · intro o ho w₁ r w₂ h hans
    have hcall := h.call ho ha hans
    exact ⟨hcall.1.inv, trivial, hcall⟩

/-- The pod is found and deleted, or there is none to be found. -/
theorem cleanupWorkerPod_clears (hw : Held task n a w)
    (ha : a.phase ∈ [Phase.completed, .waitingForPR, .failed]) :
    KeepsPods task (Cleared task n a) (cleanupWorkerPod a.workerPod task.ns) w := by
  have hpending : a.phase ≠ .pending := by
    intro hp
    simp [hp] at ha
  have hname : a.workerPod = attemptPod task a := by
    apply hw.workerPod
    intro hp
    rcases List.mem_pair.mp hp with hp | hp
    · simp [hp] at ha
    · exact hpending hp
  rw [hname]
  refine Keeps.call (fun r w => Held task n a w ∧
    (r.isOk = false → w.1.pods.Covered (attemptPod task a)) ∧
    ∀ pod, r = .ok pod → pod.name = attemptPod task a) ?_ ?_ ?_ ?_
  · rintro r w₁ w₂ ⟨h, hgone, hpod⟩ hd _
    exact ⟨h.drift hd, fun hr => (hgone hr).churn hd.1.2, hpod⟩
  · exact fun w₁ w₂ h hd => h.drift hd
  · intro r w₁ hans
    have hheld := hw.call (o := .getPod _) trivial (fun t ht => by cases ht) hans
    refine ⟨hheld.inv, trivial, hheld, ?_, ?_⟩
    · intro hr
      apply hans.1.1.2.kept (by simp)
      by_contra hleft
      have hok := (hans.2 hleft a hw.holding).1 ha
      rw [hr] at hok
      cases hok
    · rintro pod rfl
      exact hans.1.1.2.1
  · rintro r w₁ _ ⟨h, hgone, hpod⟩
    cases r with
    | error err => exact ⟨h, hgone rfl⟩
    | ok pod =>
      refine Keeps.call (fun _ w => Cleared task n a w) ?_ ?_ ?_ ?_
      · exact fun _ w₂ w₃ h hd _ => h.drift hd
      · exact fun w₂ w₃ h hd => h.drift hd
      · intro r w₂ hans
        have hmay : MayCall true (task.version n a) (.deletePod ⟨pod.name, pod.ns⟩) := by
          simp only [MayCall, version_status]
          simp only [List.mem_cons, List.not_mem_nil, or_false] at ha ⊢
          exact ha
        have hheld := h.call hmay (fun t ht => by cases ht) hans
        refine ⟨hheld.inv, trivial, hheld, ?_⟩
        by_cases hcovered : w₁.1.pods.Covered (attemptPod task a)
        · exact hans.1.1.2.kept (by simp) hcovered
        · have hdeleted := hans.2
          simp only [Tidies, hpod pod rfl] at hdeleted
          exact hdeleted hcovered
      · exact fun _ w₂ _ h => h

/-- If the Reconcile is the task's last, no pod is left. -/
def Rests (task : AgentTask) (vs : List AgentTaskStatus) (n : Nat) (a : AgentTaskStatus)
    (w : Estate × Ledger) : Prop :=
  Held task n a w ∧ (a.phase = .failed ∧ maxRetries task.spec ≤ a.retryCount ∨
    w.1.store.versions ≠ vs ∧ w.1.store.current.phase ∈ [Phase.merged, .closed] →
      w.1.pods.Settled)

theorem Cleared.settled (h : Cleared task n a w)
    (ha : a.phase = .failed → maxRetries task.spec ≤ a.retryCount) : w.1.pods.Settled :=
  h.1.settled h.2 (h.1.inv.lifecycle.retryCount_current h.1.at_seen ha)

variable {vs : List AgentTaskStatus}

theorem Cleared.rests (h : Cleared task n a w) (ha : Waiting a) : Rests task vs n a w := by
  refine ⟨h.1, fun _ => h.settled ?_⟩
  intro hfailed
  simp [Waiting, hfailed] at ha

theorem Held.rests_open (h : Held task n a w) (ha : a.phase ≠ .failed)
    (hopen : w.1.store.versions = vs ∨ w.1.store.current.phase ∉ [Phase.merged, .closed]) :
    Rests task vs n a w := by
  refine ⟨h, ?_⟩
  rintro (⟨hfailed, _⟩ | ⟨hversions, hphase⟩)
  · exact absurd hfailed ha
  · rcases hopen with hsame | hopen
    · exact absurd hsame hversions
    · exact absurd hphase hopen

theorem Waiting.phase (ha : Waiting a) : a.phase = .completed ∨ a.phase = .waitingForPR :=
  List.mem_pair.mp ha

theorem Waiting.not_failed (ha : Waiting a) : a.phase ≠ .failed := by
  rcases ha.phase with hp | hp <;> simp [hp]

theorem Waiting.not_pending (ha : Waiting a) : a.phase ≠ .pending := by
  rcases ha.phase with hp | hp <;> simp [hp]

theorem closeWithoutPR_rests (hw : Held task n a w) (ha : Waiting a) :
    KeepsPods task (Rests task vs n a) (closeWithoutPR (task.version n a)) w := by
  have hclose : (updateStatus ((task.version n a).withStatus fun s =>
      { s with phase := .closed, message := "No PR was created" })).Uses
        (MayCall true (task.version n a)) :=
    ⟨mayCall_close (t := task.version n a) ha _, fun _ => trivial⟩
  apply (keepsPods_held hclose hw ha.not_failed).bind
  intro _ w₁ h₁
  apply (cleanupWorkerPod_clears h₁ (by simpa [Waiting] using Or.imp_right Or.inl ha.phase)).bind
  intro _ w₂ h₂
  have hrest : (updateAgentStatus task.spec.agentRef task.ns).Uses
      (MayCall true (task.version n a)) := updateAgentStatus_mayCall _ _ _
  apply (keepsPods_cleared hrest h₂ ha.not_pending).bind
  intro _ w₃ h₃
  exact h₃.rests ha

theorem closeUntracked_rests (hw : Cleared task n a w) (ha : Waiting a) :
    KeepsPods task (Rests task vs n a) (closeUntracked (task.version n a)) w := by
  have huses : (closeUntracked (task.version n a)).Uses (MayCall true (task.version n a)) :=
    closeUntracked_uses ha
  exact (keepsPods_cleared huses hw ha.not_pending).mono fun _ w₁ h₁ => h₁.rests ha

theorem concludePR_rests (hw : Held task n a w) (ha : Waiting a) {prState podIP message : String}
    {phase : Phase} (hphase : phase ∈ [Phase.waitingForPR, .merged, .closed]) :
    KeepsPods task (Rests task vs n a)
      (concludePR (task.version n { a with prState := prState }) podIP phase message) w := by
  have hgraduate : (graduateWorker podIP task.name).Uses (MayCall true (task.version n a)) :=
    ⟨fun _ => ha, fun _ => trivial⟩
  apply (keepsPods_held hgraduate hw ha.not_failed).bind
  intro _ w₁ h₁
  apply (cleanupWorkerPod_clears h₁ (by simpa [Waiting] using Or.imp_right Or.inl ha.phase)).bind
  intro _ w₂ h₂
  have hrest : (finishWaiting ((task.version n a).withStatus fun s =>
      { s with phase := phase, message := message, prState := prState })).Uses
        (MayCall true (task.version n a)) :=
    finishWaiting_uses (fun _ h => h.mayCall) (mayCall_track (t := task.version n a) ha hphase _ _)
  exact (keepsPods_cleared hrest h₂ ha.not_pending).mono fun _ w₃ h₃ => h₃.rests ha

theorem keepsPods_open {p : OperatorM α} (hp : p.Uses fun o => MayCall true (task.version n a) o ∧
      ∀ t, o = .updateTaskStatus t → t.status.phase = .waitingForPR)
    (hw : Held task n a w) (ha : Waiting a) (hvs : w.1.store.versions = vs) :
    KeepsPods task (Rests task vs n a) p w := by
  have hkeep : KeepsPods task (fun w => Held task n a w ∧ (w.1.store.versions = vs ∨
      w.1.store.current.phase ∉ [Phase.merged, .closed])) p w := by
    apply Keeps.of_uses hp ⟨hw, Or.inl hvs⟩
    · rintro w₁ w₂ ⟨h, hopen⟩ hd
      refine ⟨h.drift hd, ?_⟩
      rw [hd.1.1]
      exact hopen
    · rintro o ⟨ho, hphase⟩ w₁ r w₂ ⟨h, hopen⟩ hans
      have hcall := h.call ho (fun _ _ hfailed => absurd hfailed ha.not_failed) hans
      refine ⟨hcall.inv, trivial, hcall, ?_⟩
      rcases hans.1.1.1.cases h.at_seen (h.seen ▸ ho) with hsame | ⟨b, rfl, _, _, _, hwrite⟩
      · rw [hsame]
        exact hopen
      · right
        have hb : b.phase = .waitingForPR := hphase _ rfl
        rw [hwrite, Versioned.write_current, hb]
        simp
  exact hkeep.mono fun _ w₁ h₁ => h₁.1.rests_open ha.not_failed h₁.2

theorem handlePRStatus_rests (hw : Held task n a w) (ha : Waiting a)
    (hvs : w.1.store.versions = vs) {podIP : String} {prStatus : PRStatusResponse} :
    KeepsPods task (Rests task vs n a) (handlePRStatus (task.version n a) podIP prStatus) w := by
  unfold handlePRStatus
  dsimp only
  split
  · exact concludePR_rests hw ha (by simp)
  split
  · exact concludePR_rests hw ha (by simp)
  · apply keepsPods_open _ hw ha hvs
    apply finishWaiting_uses
    · intro o ho
      refine ⟨ho.mayCall, ?_⟩
      rintro t rfl
      exact ho.elim
    · refine ⟨mayCall_track (t := task.version n a) ha (by simp) _ _, ?_⟩
      rintro t h
      cases h
      rfl

theorem trackPR_rests (hw : Held task n a w) (ha : Waiting a) (hvs : w.1.store.versions = vs)
    {r : Except ApiError Pod} (hr : ¬ Up r → w.1.pods.Covered (attemptPod task a)) :
    KeepsPods task (Rests task vs n a) (trackPR (task.version n a) r) w := by
  rcases unavailable_or_available r with hgone | ⟨pod, rfl, hphase, hip⟩
  · rw [trackPR_unavailable hgone]
    apply closeUntracked_rests ⟨hw, hr _⟩ ha
    intro hup
    obtain ⟨pod, rfl, hphase, hip⟩ := hup.pod
    rcases hgone pod rfl with h | h
    · exact h hphase
    · exact hip h
  · rw [trackPR_available hphase hip]
    refine Keeps.call (fun _ w => Held task n a w ∧ w.1.store.versions = vs) ?_ ?_ ?_ ?_
    · rintro _ w₁ w₂ ⟨h, hsame⟩ hd _
      refine ⟨h.drift hd, ?_⟩
      rw [hd.1.1]
      exact hsame
    · exact fun w₁ w₂ h hd => h.drift hd
    · intro reply w₁ hans
      have hask : MayCall true (task.version n a) (.httpGet ⟨pod.podIP, task.name, .prStatus⟩) :=
        ⟨rfl, fun _ => ha⟩
      have hheld := hw.call hask (fun t ht => by cases ht) hans
      have hstore : w₁.1.store = w.1.store := hans.1.1.1
      refine ⟨hheld.inv, trivial, hheld, ?_⟩
      rw [hstore]
      exact hvs
    · rintro reply w₁ _ ⟨h, hsame⟩
      dsimp only [Program.bind, pure_eq]
      cases decodeReply {} PRStatusResponse.set reply with
      | error err => exact h.rests_open ha.not_failed (Or.inl hsame)
      | ok s => exact handlePRStatus_rests h ha hsame

theorem handleWaitingForPR_rests (hw : Held task n a w) (ha : Waiting a)
    (hvs : w.1.store.versions = vs) (hfresh : w.2.fresh = true) :
    KeepsPods task (Rests task vs n a) (handleWaitingForPR (task.version n a)) w := by
  by_cases hpr : a.pullRequestURL = ""
  · rw [handleWaitingForPR_noPR hpr]
    exact closeWithoutPR_rests hw ha
  have hname : a.workerPod = attemptPod task a := by
    apply hw.workerPod
    rcases ha.phase with hp | hp <;> simp [hp]
  rw [handleWaitingForPR_eq hpr]
  refine Keeps.call (fun r w => Held task n a w ∧ w.1.store.versions = vs ∧
    (¬ Up r → w.1.pods.Covered (attemptPod task a))) ?_ ?_ ?_ ?_
  · rintro r w₁ w₂ ⟨h, hsame, hgone⟩ hd _
    refine ⟨h.drift hd, ?_, fun hr => (hgone hr).churn hd.1.2⟩
    rw [hd.1.1]
    exact hsame
  · exact fun w₁ w₂ h hd => h.drift hd
  · intro r w₁ hans
    have hheld := hw.call (o := .getPod _) trivial (fun t ht => by cases ht) hans
    have hstore : w₁.1.store = w.1.store := hans.1.1.1
    refine ⟨hheld.inv, trivial, hheld, ?_, ?_⟩
    · rw [hstore]
      exact hvs
    · intro hdown
      apply hans.1.1.2.kept (by simp)
      by_contra hleft
      rw [← hname] at hleft
      exact hdown ((hans.2 hleft a hw.holding).2 hfresh ha)
  · rintro r w₁ _ ⟨h, hsame, hgone⟩
    exact trackPR_rests h ha hsame hgone

theorem workerPodName_ne_empty (name : String) (retryCount : Int) :
    workerPodName name retryCount ≠ "" := by
  unfold workerPodName
  split
  · simp
  · simp

theorem handleFailed_rests (hw : Held task n a w) (ha : a.phase = .failed) :
    KeepsPods task (Rests task vs n a) (handleFailed (task.version n a)) w := by
  have hname : a.workerPod = attemptPod task a := hw.workerPod (by simp [ha])
  have hpending : a.phase ≠ .pending := by simp [ha]
  have hwaiting : ¬ Waiting a := by simp [Waiting, ha]
  have hpod : (task.version n a).status.workerPod ≠ "" := by
    rw [version_status, hname]
    exact workerPodName_ne_empty _ _
  unfold handleFailed
  rw [if_pos hpod]
  apply (cleanupWorkerPod_clears hw (by simp [ha])).bind
  intro _ w₁ h₁
  have hrest : (if (task.version n a).status.retryCount < maxRetries (task.version n a).spec then
      retryTask (task.version n a) else giveUp (task.version n a)).Uses
        (MayCall true (task.version n a)) := by
    split
    · rename_i hlt
      exact retryTask_uses ha hlt
    · rename_i hge
      exact giveUp_uses ha (Int.not_lt.mp hge)
  apply (keepsPods_cleared hrest h₁ hpending).mono
  intro _ w₂ h₂
  refine ⟨h₂.1, ?_⟩
  rintro (⟨_, hmax⟩ | ⟨_, hended⟩)
  · exact h₂.settled fun _ => hmax
  · exact absurd hended (h₂.1.not_ended hwaiting (by simp [ha]))

theorem dispatch_rests (hw : Held task n a w) (hvs : w.1.store.versions = vs)
    (hfresh : w.2.fresh = true) :
    KeepsPods task (Rests task vs n a) (dispatch (task.version n a)) w := by
  by_cases ha : Waiting a
  · rw [dispatch_waiting (t := task.version n a) ha]
    exact handleWaitingForPR_rests hw ha hvs hfresh
  by_cases hfailed : a.phase = .failed
  · unfold dispatch
    simp only [version_status, hfailed]
    exact handleFailed_rests hw hfailed
  by_cases hended : a.phase ∈ [Phase.merged, .closed]
  · have hnothing : dispatch (task.version n a) = pure (.ok {}) := by
      unfold dispatch
      rcases List.mem_pair.mp hended with hp | hp
      · simp only [version_status, hp]
      · simp only [version_status, hp]
    rw [hnothing]
    exact hw.rests_open hfailed (Or.inl hvs)
  · apply (keepsPods_held (dispatch_uses _) hw hfailed).mono
    exact fun _ w₁ h₁ => h₁.rests_open hfailed (Or.inr (h₁.not_ended ha hended))

/-- A task that is final and leaves no pod behind. -/
structure AtRest (task : AgentTask) (w : Estate × Ledger) : Prop where
  lifecycle : TaskInv task.spec w.1.store
  final : Final task.spec w.1.store.current
  settled : w.1.pods.Settled

theorem Held.final (h : Held task n a w)
    (hend : a.phase = .failed ∧ maxRetries task.spec ≤ a.retryCount ∨
      w.1.store.current.phase ∈ [Phase.merged, .closed]) :
    Final task.spec w.1.store.current := by
  rcases hend with hfailed | hphase
  · have hfinal : Final task.spec a := Or.inr (Or.inr hfailed)
    rcases h.inv.lifecycle.current_cases h.at_seen with hsame | hmove
    · rw [hsame]
      exact hfinal
    · exact (hmove.final hfinal).1
  · rcases List.mem_pair.mp hphase with hp | hp
    · exact Or.inl hp
    · exact Or.inr (Or.inl hp)

theorem reconcile_rests (hw : LeakInv task w) :
    KeepsPods task (fun w' => Concludes task.spec w w' → AtRest task w')
      (reconcile task.key) w := by
  refine Keeps.call (fun r w₁ => w₁.1.store.versions = w.1.store.versions ∧
    match r with
    | .ok t => ∃ n a, t = task.version n a ∧ Held task n a w₁ ∧ w₁.2.fresh = true
    | .error _ => w₁.2.holding = none) ?_ ?_ ?_ ?_
  · rintro r w₁ w₂ ⟨hsame, hr⟩ hd _
    refine ⟨?_, ?_⟩
    · rw [hd.1.1]
      exact hsame
    · cases r with
      | error err =>
        dsimp only at hr ⊢
        rw [hd.2]
        exact hr
      | ok t =>
        obtain ⟨n, a, rfl, hheld, hfresh⟩ := hr
        refine ⟨n, a, rfl, hheld.drift hd, ?_⟩
        rw [hd.2]
        exact hfresh
  · exact fun w₁ w₂ h hd => h.drift hd
  · rintro r w₁ ⟨⟨⟨hserve, hchange⟩, hm⟩, _⟩
    have hpods : w₁.1.pods = w.1.pods := hchange
    have hversions : w₁.1.store.versions = w.1.store.versions := by
      rcases hserve.read with hs | ⟨n, a, _, _, hs⟩
      · rw [hs]
      · rw [hs, Versioned.read_versions]
    have hinv : LeakInv task w₁ := by
      apply hw.change (hw.lifecycle.serve_read hserve) hversions
      · rw [hpods]
        exact fun name h => h
      · rw [hm]
        cases r <;> rfl
      · rw [hm]
        cases r <;> rfl
    refine ⟨hinv, trivial, hversions, ?_⟩
    cases r with
    | error err =>
      dsimp only
      rw [hm]
      rfl
    | ok t =>
      obtain ⟨n, a, rfl, hserves, hs⟩ := hserve
      refine ⟨n, a, rfl, ⟨hinv, ?_, ?_, ?_⟩, ?_⟩
      · rw [hs, Versioned.read_seen]
      · rw [hversions]
        exact hserves.2
      · rw [hm]
        rfl
      · rw [hm]
        rfl
  · rintro r w₁ _ ⟨hsame, hr⟩
    cases r with
    | error err =>
      have hquiet : Concludes task.spec w w₁ → AtRest task w₁ := by
        rintro (⟨a, ha, _⟩ | ⟨hne, _⟩)
        · rw [hr] at ha
          cases ha
        · exact absurd hsame hne
      change KeepsPods task _ (if err.reason = .notFound then _ else _) w₁
      split
      · exact hquiet
      · exact hquiet
    | ok t =>
      obtain ⟨n, a, rfl, hheld, hfresh⟩ := hr
      apply (dispatch_rests hheld hsame hfresh).mono
      rintro _ w₂ ⟨hheld₂, hrests⟩ hconcludes
      have hend : a.phase = .failed ∧ maxRetries task.spec ≤ a.retryCount ∨
          w₂.1.store.versions ≠ w.1.store.versions ∧
            w₂.1.store.current.phase ∈ [Phase.merged, .closed] := by
        apply hconcludes.imp_left
        rintro ⟨b, hb, hfailed⟩
        rw [hheld₂.holding] at hb
        cases hb
        exact hfailed
      exact ⟨hheld₂.inv.lifecycle, hheld₂.final (hend.imp_right And.right), hrests hend⟩

end Keeping

/-! ## Whole runs -/

theorem stores_tidyEnv (task : AgentTask) : Stores task (tidyEnv task) (fun w => w.1.store) :=
  ⟨fun h => h.1.1.1, fun h => h.1.1⟩

theorem leakInv_of_reachable {c : Pool Unit ApiOp ApiOp.Resp Outcome (Estate × Ledger)}
    (hc : Reachable (tidyEnv task) task (Estate.start, {}) c) : LeakInv task c.world := by
  refine Pool.Reachable.invariant (LeakInv task) (fun _ => (tidyEnv task).drift)
    (fun _ _ _ => True) (fun w w' h hd => h.drift hd) (fun _ _ _ h => h)
    (fun i j _ _ hij => absurd rfl hij) (fun _ w hw => ?_) (LeakInv.start task) hc
  exact (reconcile_rests hw).mono fun _ _ _ => trivial

theorem AtRest.step {a : AgentTaskStatus} {w w' : Estate × Ledger} (h : AtRest task w)
    {o : ApiOp} {r : o.Resp} (ha : w.1.store.versions[w.1.store.seen]? = some a)
    (ho : MayCall true (task.version w.1.store.seen a) o)
    (hans : (tidyEnv task).answer w o r w') : AtRest task w' := by
  obtain ⟨⟨⟨hserve, hchange⟩, _⟩, _⟩ := hans
  refine ⟨h.lifecycle.serve hserve ha ho, ?_, ?_⟩
  · rcases hserve.cases ha ho with hsame | ⟨b, _, _, hcurrent, hwrite, hstore⟩
    · rw [hsame]
      exact h.final
    · rw [hstore, Versioned.write_current]
      have hmove := hwrite.statusMove (h.lifecycle.known (List.mem_of_getElem? ha))
      exact (hmove.final (hcurrent ▸ h.final)).1
  · apply h.settled.kept hchange
    rintro pod rfl
    exact h.lifecycle.not_final_of_pending ha ho.1 w.1.store.current_eq_getElem? h.final

/-- From a final task without pods no pod comes any more. -/
theorem AtRest.stays {w : Estate × Ledger} (h : AtRest task w)
    {c : Pool Unit ApiOp ApiOp.Resp Outcome (Estate × Ledger)}
    (hc : Reachable (tidyEnv task) task w c) : AtRest task c.world := by
  refine (stores_tidyEnv task).invariant (AtRest task) ?_ ?_ ?_ h hc
  · rintro w w' h ⟨⟨hstore, hchurn⟩, _⟩
    refine ⟨?_, ?_, h.settled.churn hchurn⟩
    · rw [hstore]
      exact h.lifecycle
    · rw [hstore]
      exact h.final
  · rintro w r w' h ⟨⟨⟨hserve, hchange⟩, _⟩, _⟩
    have hpods : w'.1.pods = w.1.pods := hchange
    refine ⟨h.lifecycle.serve_read hserve, ?_, ?_⟩
    · rcases hserve.read with hs | ⟨n, a, _, _, hs⟩
      · rw [hs]
        exact h.final
      · rw [hs, Versioned.current_congr (Versioned.read_versions _ n)]
        exact h.final
    · rw [hpods]
      exact h.settled
  · exact fun w o r w' a h ha ho hans => h.step ha ho hans

/-- As long as pods that are left are found and their deletions carried out, a pod
that is not accounted for belongs to the current attempt, whose pod is asked for
only when no other is left; and none is left after a retry reset, or once the task's
last Reconcile has returned. -/
theorem no_pod_left_behind {c : Pool Unit ApiOp ApiOp.Resp Outcome (Estate × Ledger)}
    (hc : Reachable (tidyEnv task) task (Estate.start, {}) c) :
    (∀ name, ¬ c.world.1.pods.Covered name → name = attemptPod task c.world.1.store.current) ∧
    c.world.2.crowded = false ∧
    (c.world.1.store.current.phase = .pending →
      c.world.2.requested ≠ some c.world.1.store.current.retryCount → c.world.1.pods.Settled) ∧
    ∀ (w w' : Estate × Ledger) (tr : List (Event ApiOp.Resp)) (out : Outcome)
      (c' : Pool Unit ApiOp ApiOp.Resp Outcome (Estate × Ledger)), c = Pool.idle w →
      Executes (tidyEnv task) (reconcile task.key) w tr out w' → Concludes task.spec w w' →
      Reachable (tidyEnv task) task w' c' → c'.world.1.pods.Settled := by
  have hinv := leakInv_of_reachable hc
  refine ⟨hinv.own, hinv.uncrowded, fun _ => hinv.unrequested, ?_⟩
  rintro w w' tr out c' rfl hrun hconcludes hc'
  have hrest : ∀ w₁, Relation.ReflTransGen (tidyEnv task).drift w w₁ → LeakInv task w₁ ∧
      w₁.1.store = w.1.store := by
    intro w₁ hd
    induction hd with
    | refl => exact ⟨hinv, rfl⟩
    | tail _ hstep ih => exact ⟨ih.1.drift hstep, hstep.1.1.trans ih.2⟩
  have hkeeps : ∀ w₁, Relation.ReflTransGen (tidyEnv task).drift w w₁ →
      KeepsPods task (fun w' => Concludes task.spec w w' → AtRest task w')
        (reconcile task.key) w₁ := by
    intro w₁ hd
    obtain ⟨hinv₁, hstore⟩ := hrest w₁ hd
    apply (reconcile_rests hinv₁).mono
    intro _ w₂ h
    unfold Concludes at h ⊢
    rwa [hstore] at h
  have hend := Keeps.executes hkeeps (fun w₁ w₂ h hd => h.drift hd) hrun
  exact ((hend hconcludes).stays hc').settled

/-! ## A pod that stays behind -/

theorem Pods.change_after {p : Pods} {b : Behaviour} {s : Versioned AgentTaskStatus} {o : ApiOp}
    (hpod : ∀ key pod, b.pod key = .ok pod → pod.name = key.name)
    (hcreated : ∀ pod, b.created pod =
      if p.find pod.name = none then .ok () else .error ⟨.alreadyExists, "already exists"⟩)
    (ho : ∀ key, o ≠ .deletePod key) : p.Change o (b.respond task s o).1 (p.after o) := by
  cases o with
  | deletePod key => exact absurd rfl (ho key)
  | getPod key =>
    simp only [Behaviour.respond, Pods.after]
    cases hread : b.pod key with
    | error err => exact rfl
    | ok pod => exact ⟨hpod key pod hread, rfl⟩
  | createPod pod =>
    simp only [Behaviour.respond, hcreated, Pods.after]
    by_cases hfind : p.find pod.name = none
    · simp only [if_pos hfind]
      exact ⟨hfind, rfl⟩
    · simp only [if_neg hfind]
      exact Or.inl rfl
  | getTask key =>
    simp only [Behaviour.respond]
    split <;> rfl
  | updateTaskStatus t =>
    simp only [Behaviour.respond]
    split <;> rfl
  | _ => exact rfl

namespace Estate

/-- All calls succeed, but perhaps the reads of pods. -/
def behaviour (e : Estate) (found merged : Bool) : Behaviour where
  agent := .ok demoAgent
  pod key :=
    if found then
      match e.pods.find key.name with
      | some pod => .ok pod
      | none => .error ⟨.notFound, "not found"⟩
    else .error ⟨.other, "etcdserver: request timed out"⟩
  created pod :=
    if e.pods.find pod.name = none then .ok () else .error ⟨.alreadyExists, "already exists"⟩
  reply := demoWorker merged
  writes := true

def respond (task : AgentTask) (found merged : Bool) (e : Estate) : (o : ApiOp) → o.Resp × Estate
  | .deletePod key =>
    if e.pods.find key.name = none then (.error ⟨.notFound, "not found"⟩, e)
    else (.ok (), { e with pods := e.pods.delete key.name })
  | o => (((e.behaviour found merged).respond task e.store o).1,
      ⟨((e.behaviour found merged).respond task e.store o).2, e.pods.after o⟩)

theorem answer_respond (task : AgentTask) (found merged : Bool) (e : Estate) (o : ApiOp) :
    (estate task).answer e o (e.respond task found merged o).1
      (e.respond task found merged o).2 := by
  have hserve := (e.behaviour found merged).serve_respond task e.store o
  have hpod : ∀ key pod, (e.behaviour found merged).pod key = .ok pod → pod.name = key.name := by
    intro key pod hread
    cases found with
    | false => cases hread
    | true =>
      simp only [behaviour, if_true] at hread
      cases hfind : e.pods.find key.name with
      | none =>
        rw [hfind] at hread
        cases hread
      | some other =>
        rw [hfind] at hread
        cases hread
        simpa using List.find?_some hfind
  have hchange : (∀ key, o ≠ .deletePod key) → e.pods.Change o
      ((e.behaviour found merged).respond task e.store o).1 (e.pods.after o) :=
    Pods.change_after hpod fun _ => rfl
  cases o with
  | deletePod key =>
    by_cases hfind : e.pods.find key.name = none
    · simp only [respond, if_pos hfind]
      exact ⟨rfl, Or.inl rfl⟩
    · simp only [respond, if_neg hfind]
      exact ⟨rfl, hfind, rfl⟩
  | _ => exact ⟨hserve, hchange (by simp)⟩

end Estate

/-- One complete Reconcile of the small task. -/
def leakStep (found merged : Bool) (w : Estate × Ledger) : Estate × Ledger :=
  (play (watching (Estate.respond demoTask found merged) ledger) (reconcile demoTask.key) w).2.2

/-- The worker's pod is up. -/
def leakRunning : Estate × Ledger :=
  let w := leakStep true false (leakStep true false (Estate.start, {}))
  ({ w.1 with pods := w.1.pods.report "worker-t" .running "10.0.0.1" }, w.2)

/-- The task waits for its pull request. -/
def leakWaiting : Estate × Ledger := leakStep true false leakRunning

theorem leakStep_executes {found merged : Bool} {w : Estate × Ledger}
    (hw : PlaysWithin Tidies (watching (Estate.respond demoTask found merged) ledger)
      (reconcile demoTask.key) w) :
    ∃ tr out, Executes (tidyEnv demoTask) (reconcile demoTask.key) w tr out
      (leakStep found merged w) :=
  ⟨_, _, Executes.of_play_restrict
    (answer_watching (Estate.answer_respond demoTask found merged) ledger) hw⟩

theorem leakWaiting_reachable :
    Reachable (tidyEnv demoTask) demoTask (Estate.start, {}) (Pool.idle leakWaiting) := by
  have hstep : ∀ {w}, Reachable (tidyEnv demoTask) demoTask (Estate.start, {}) (Pool.idle w) →
      PlaysWithin Tidies (watching (Estate.respond demoTask true false) ledger)
        (reconcile demoTask.key) w →
      Reachable (tidyEnv demoTask) demoTask (Estate.start, {})
        (Pool.idle (leakStep true false w)) := by
    intro w h hw
    obtain ⟨tr, out, hrun⟩ := leakStep_executes hw
    exact h.execute (i := ()) hrun
  have hstarted := hstep (hstep .refl (by decide)) (by decide)
  exact hstep (hstarted.drift ⟨⟨rfl, .report _ _ _ _⟩, rfl⟩) (by decide)

/-- The pod of a task that waits for its pull request cannot be read for a moment:
the task is closed, and its pod is left running. -/
theorem pod_left_behind :
    Reachable ((estate demoTask).watched ledger) demoTask (Estate.start, {})
      (Pool.idle leakWaiting) ∧
    (∃ tr out, Executes ((estate demoTask).watched ledger) (reconcile demoTask.key) leakWaiting
      tr out (leakStep false false leakWaiting)) ∧
    Concludes demoTask.spec leakWaiting (leakStep false false leakWaiting) ∧
    (leakStep false false leakWaiting).1.store.current.phase = .closed ∧
    ¬ (leakStep false false leakWaiting).1.pods.Settled := by
  refine ⟨leakWaiting_reachable.of_restrict, ⟨_, _, Executes.of_play ?_ _ _⟩, ?_, by decide,
    by decide⟩
  · exact answer_watching (Estate.answer_respond demoTask false false) ledger
  · exact Or.inr ⟨by decide, by decide⟩

/-- With the pod found, the merged task leaves none. -/
theorem no_pod_left_behind_demo :
    (leakStep true true leakWaiting).1.store.current.phase = .merged ∧
      (leakStep true true leakWaiting).1.pods.Settled := by
  have hwithin : PlaysWithin Tidies (watching (Estate.respond demoTask true true) ledger)
      (reconcile demoTask.key) leakWaiting := by decide
  obtain ⟨tr, out, hrun⟩ := leakStep_executes hwithin
  refine ⟨by decide, ?_⟩
  exact (no_pod_left_behind leakWaiting_reachable).2.2.2 _ _ tr out (Pool.idle _) rfl hrun
    (Or.inr ⟨by decide, by decide⟩) .refl

end BulletFarm.Operator
