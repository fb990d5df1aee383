import Mathlib
import BulletFarm.Operator.Phases

/-!
# The tasks of a namespace and their pods

Any number of task objects, created and removed at any time, and under each name
the pod that was accepted last. Every Reconcile of a name works on whichever
object of that name its cache serves. Pod names are task names with an affix, and
a pod that exists already is taken for one's own.
-/

namespace BulletFarm.Operator

open Interaction Program

set_option autoImplicit false

theorem workerPodName_injective {name : String} {i j : Int} (hi : 0 ≤ i) (hj : 0 ≤ j)
    (h : workerPodName name i = workerPodName name j) : i = j := by
  have hlonger : ∀ k : Int, "worker-" ++ name ≠ "worker-" ++ name ++ "-r" ++ toString k := by
    intro k heq
    have hlen := congrArg String.length heq
    have hsuffix : "-r".length = 2 := rfl
    simp only [String.length_append] at hlen
    omega
  unfold workerPodName at h
  split at h
  · split at h
    · have hlist := congrArg String.toList h
      simp only [String.toList_append, List.append_cancel_left_eq] at hlist
      exact Int.repr_injective (String.toList_inj.mp hlist)
    · exact absurd h.symm (hlonger i)
  · split at h
    · exact absurd h (hlonger j)
    · omega

/-- A task object; it keeps its uid when it is removed. -/
structure TaskObject where
  task : AgentTask
  alive : Bool
  store : Versioned AgentTaskStatus

/-- The task objects by uid, and by name the pod accepted last and whether it still exists. -/
structure Namespace where
  object : String → Option TaskObject
  created : String → Option Pod
  present : String → Bool

namespace Namespace

def empty : Namespace := ⟨fun _ => none, fun _ => none, fun _ => false⟩

def setObject (w : Namespace) (uid : String) (x : TaskObject) : Namespace :=
  { w with object := fun u => if u = uid then some x else w.object u }

def addPod (w : Namespace) (pod : Pod) : Namespace := { w with
  created := fun p => if p = pod.name then some pod else w.created p
  present := fun p => if p = pod.name then true else w.present p }

def vanish (w : Namespace) (name : String) : Namespace :=
  { w with present := fun p => if p = name then false else w.present p }

/-- What the calls do. A read may be served from any object of the name, removed
or not; a status write reaches the object it was read from or none. -/
def Serve (w : Namespace) : (o : ApiOp) → o.Resp → Namespace → Prop
  | .getTask key, .ok t, w' => ∃ x s, w.object t.uid = some x ∧ x.task.key = key ∧
    Operator.Serve x.task x.store (.getTask key) (.ok t) s ∧
      w' = w.setObject t.uid { x with store := s }
  | .getTask _, .error _, w' => w' = w
  | .updateTaskStatus t, r, w' => ((∃ err, r = .error err) ∧ w' = w) ∨
    ∃ x s, w.object t.uid = some x ∧ x.alive = true ∧
      Operator.Serve x.task x.store (.updateTaskStatus t) r s ∧
        w' = w.setObject t.uid { x with store := s }
  | .createPod pod, .ok _, w' => w.present pod.name = false ∧ w' = w.addPod pod
  | .createPod pod, .error err, w' => (err.reason = .alreadyExists → w.present pod.name = true) ∧
    (w' = w ∨ w.present pod.name = false ∧ w' = w.addPod pod)
  | .getPod key, .ok pod, w' => (∃ last, w.created key.name = some last ∧
    pod = { last with phase := pod.phase, podIP := pod.podIP }) ∧ w' = w
  | _, _, w' => w' = w

/-- Objects come with a fresh uid and an unused name, and go; so do pods. -/
inductive Drift (ns : String) : Namespace → Namespace → Prop where
  | create {w : Namespace} (task : AgentTask) : task.ns = ns → w.object task.uid = none →
      (∀ u x, w.object u = some x → x.alive = true → x.task.name ≠ task.name) →
      Drift ns w (w.setObject task.uid ⟨task, true, Versioned.start .empty⟩)
  | remove {w : Namespace} {uid : String} {x : TaskObject} : w.object uid = some x →
      Drift ns w (w.setObject uid { x with alive := false })
  | vanish (w : Namespace) (name : String) : Drift ns w (w.vanish name)

end Namespace

def namespaceEnv (ns : String) : Environment ApiOp ApiOp.Resp Namespace where
  answer := Namespace.Serve
  drift := Namespace.Drift ns

/-- The object works with the pod of this name, or is about to. -/
def TaskObject.Relies (x : TaskObject) (podName : String) : Prop :=
  x.alive = true ∧ x.store.current.phase ∈ [Phase.pending, .running] ∧
    workerPodName x.task.name x.store.current.retryCount = podName

/-- When a pod is asked for, no pod of that name made for another object is in the
way: it is gone, and its object, if it is still there, does not rely on it. -/
def OwnName (w : Namespace) : (o : ApiOp) → o.Resp → Namespace → Prop
  | .createPod pod, _, _ => ∀ last ∈ w.created pod.name,
    last.controller ≠ pod.controller → w.present pod.name = false ∧
      ∀ u ∈ last.controller, ∀ x ∈ w.object u, ¬ x.Relies pod.name
  | _, _, _ => True

instance (x : TaskObject) (podName : String) : Decidable (x.Relies podName) :=
  inferInstanceAs (Decidable (_ ∧ _ ∧ _))

instance (w : Namespace) (o : ApiOp) (r : o.Resp) (w' : Namespace) :
    Decidable (OwnName w o r w') := by
  cases o with
  | createPod pod => exact inferInstanceAs (Decidable (∀ last ∈ w.created pod.name, _ → _))
  | _ => exact isTrue trivial

/-- The reconciles of the namespace, one at a time for each name. -/
abbrev NamespaceReachable (env : Environment ApiOp ApiOp.Resp Namespace) (ns : String)
    (c : Pool String ApiOp ApiOp.Resp Outcome Namespace) : Prop :=
  Pool.Reachable env (fun name => reconcile ⟨name, ns⟩) Namespace.empty c

/-! ## What holds of a namespace -/

/-- The pod of this name was made for the object `uid`. -/
def Made (w : Namespace) (uid podName : String) : Prop :=
  ∃ pod, w.created podName = some pod ∧ pod.controller = some uid

/-- The pod the status names is the one of its attempt. -/
def Owned (w : Namespace) (task : AgentTask) (s : AgentTaskStatus) : Prop :=
  s.workerPod = workerPodName task.name s.retryCount ∧ Made w task.uid s.workerPod

structure NamespaceInv (w : Namespace) : Prop where
  uid : ∀ u x, w.object u = some x → x.task.uid = u
  task : ∀ u x, w.object u = some x → TaskInv x.task.spec x.store
  made_for : ∀ p pod, w.created p = some pod → pod.name = p ∧ ∃ u x n a agent,
    w.object u = some x ∧ x.store.versions[n]? = some a ∧ pod = podFor (x.task.version n a) agent
  present : ∀ p, w.present p = true → ∃ pod, w.created p = some pod
  owned : ∀ u x, w.object u = some x → x.alive = true → x.store.current.phase = .running →
    Owned w x.task x.store.current

/-- What the Reconciles of `name` rely on: the others leave its tasks and their
pods alone. -/
structure Undisturbed (name : String) (w w' : Namespace) : Prop where
  kept : ∀ u x, w.object u = some x → ∃ x', w'.object u = some x' ∧ x'.task = x.task ∧
    (x'.alive = true → x.alive = true) ∧ (x.task.name = name → x'.store = x.store)
  made : ∀ u x p, w.object u = some x → x.Relies p → x.task.name = name → Made w u p →
    Made w' u p

def UndisturbedOthers (name : String) (w w' : Namespace) : Prop :=
  ∀ other, other ≠ name → Undisturbed other w w'

theorem Undisturbed.refl (name : String) (w : Namespace) : Undisturbed name w w :=
  ⟨fun _ x hx => ⟨x, hx, rfl, fun h => h, fun _ => rfl⟩, fun _ _ _ _ _ _ h => h⟩

theorem object_setObject (w : Namespace) (uid u : String) (x : TaskObject) :
    (w.setObject uid x).object u = if u = uid then some x else w.object u := rfl

theorem NamespaceInv.empty : NamespaceInv Namespace.empty := by
  constructor
  · intro u x h
    cases h
  · intro u x h
    cases h
  · intro p pod h
    cases h
  · intro p h
    cases h
  · intro u x h
    cases h

theorem NamespaceInv.setObject {w : Namespace} (h : NamespaceInv w) {uid : String}
    {x : TaskObject} (huid : x.task.uid = uid) (htask : TaskInv x.task.spec x.store)
    (hgrows : ∀ y, w.object uid = some y → y.task = x.task ∧
      ∀ (n : Nat) (a : AgentTaskStatus), y.store.versions[n]? = some a →
        x.store.versions[n]? = some a)
    (howned : x.alive = true → x.store.current.phase = .running →
      Owned w x.task x.store.current) : NamespaceInv (w.setObject uid x) := by
  constructor
  · intro u y hy
    rw [object_setObject] at hy
    split at hy
    · cases hy
      rw [huid]
      exact Eq.symm ‹_›
    · exact h.uid u y hy
  · intro u y hy
    rw [object_setObject] at hy
    split at hy
    · cases hy
      exact htask
    · exact h.task u y hy
  · intro p pod hpod
    obtain ⟨hname, u, y, n, a, agent, hy, ha, hfor⟩ := h.made_for p pod hpod
    refine ⟨hname, ?_⟩
    by_cases hu : u = uid
    · subst hu
      obtain ⟨htask, hversions⟩ := hgrows y hy
      refine ⟨u, x, n, a, agent, ?_, hversions n a ha, ?_⟩
      · rw [object_setObject, if_pos rfl]
      · rw [← htask]
        exact hfor
    · refine ⟨u, y, n, a, agent, ?_, ha, hfor⟩
      rw [object_setObject, if_neg hu]
      exact hy
  · exact h.present
  · intro u y hy
    rw [object_setObject] at hy
    split at hy
    · cases hy
      exact howned
    · exact h.owned u y hy

theorem undisturbed_setObject {w : Namespace} {uid name : String} {x : TaskObject}
    (hsame : ∀ y, w.object uid = some y → x.task = y.task ∧ (x.alive = true → y.alive = true) ∧
      (y.task.name = name → x.store = y.store)) : Undisturbed name w (w.setObject uid x) := by
  constructor
  · intro u y hy
    by_cases hu : u = uid
    · subst hu
      refine ⟨x, ?_, hsame y hy⟩
      rw [object_setObject, if_pos rfl]
    · refine ⟨y, ?_, rfl, fun h => h, fun _ => rfl⟩
      rw [object_setObject, if_neg hu]
      exact hy
  · exact fun u y p _ _ _ hmade => hmade

theorem Namespace.Drift.keeps {ns : String} {w w' : Namespace} (hd : w.Drift ns w')
    (h : NamespaceInv w) : NamespaceInv w' := by
  cases hd with
  | create task _ hfresh _ =>
    apply h.setObject (x := ⟨task, true, Versioned.start .empty⟩) rfl (TaskInv.start _)
    · intro y hy
      rw [hfresh] at hy
      cases hy
    · intro _ hphase
      cases hphase
  | @remove uid x hx =>
    apply h.setObject (x := { x with alive := false }) (h.uid uid x hx) (h.task uid x hx)
    · intro y hy
      rw [hx] at hy
      cases hy
      exact ⟨rfl, fun _ _ h => h⟩
    · intro halive
      cases halive
  | vanish name =>
    refine ⟨h.uid, h.task, h.made_for, ?_, h.owned⟩
    intro p hp
    apply h.present p
    unfold Namespace.vanish at hp
    dsimp only at hp
    split at hp
    · cases hp
    · exact hp

theorem Namespace.Drift.undisturbed {ns : String} {w w' : Namespace} (hd : w.Drift ns w')
    (name : String) : Undisturbed name w w' := by
  cases hd with
  | create task _ hfresh _ =>
    apply undisturbed_setObject
    intro y hy
    rw [hfresh] at hy
    cases hy
  | @remove uid x hx =>
    apply undisturbed_setObject
    intro y hy
    rw [hx] at hy
    cases hy
    exact ⟨rfl, fun halive => absurd halive Bool.false_ne_true, fun _ => rfl⟩
  | vanish other =>
    exact ⟨fun u x hx => ⟨x, hx, rfl, fun h => h, fun _ => rfl⟩, fun _ _ _ _ _ _ hmade => hmade⟩

/-! ## The calls of a Reconcile -/

/-- The Reconcile holds version `n` of the task, which is `a`. -/
def Holds (task : AgentTask) (n : Nat) (a : AgentTaskStatus) (w : Namespace) : Prop :=
  ∃ x, w.object task.uid = some x ∧ x.task = task ∧ x.store.seen = n ∧
    x.store.versions[n]? = some a

variable {task : AgentTask} {n : Nat} {a : AgentTaskStatus} {w w' : Namespace}

theorem Holds.undisturbed (h : Holds task n a w) (hw : Undisturbed task.name w w') :
    Holds task n a w' := by
  obtain ⟨x, hx, rfl, hseen, hversion⟩ := h
  obtain ⟨x', hx', htask, _, hstore⟩ := hw.kept _ x hx
  refine ⟨x', hx', htask, ?_, ?_⟩
  · rw [hstore rfl]
    exact hseen
  · rw [hstore rfl]
    exact hversion

/-- A call other than a request for a pod, which makes no task Running without its pod. -/
theorem NamespaceInv.call (h : NamespaceInv w) (hheld : Holds task n a w) {o : ApiOp}
    {r : o.Resp} (ho : MayCall true (task.version n a) o) (hcreate : ∀ pod, o ≠ .createPod pod)
    (hrunning : ∀ b, o = .updateTaskStatus (task.version n b) → b.phase = .running →
      ∀ x, w.object task.uid = some x → x.alive = true → x.store.Accepts n → Owned w task b)
    (hans : w.Serve o r w') :
    NamespaceInv w' ∧ UndisturbedOthers task.name w w' ∧ Holds task n a w' := by
  obtain ⟨x, hx, rfl, rfl, hversion⟩ := hheld
  have hsame : ∀ w', w' = w → NamespaceInv w' ∧ UndisturbedOthers x.task.name w w' ∧
      Holds x.task x.store.seen a w' := by
    rintro w' rfl
    exact ⟨h, fun other _ => .refl other w', x, hx, rfl, rfl, hversion⟩
  cases o with
  | getTask key => exact ho.elim
  | createPod pod => exact absurd rfl (hcreate pod)
  | getPod key =>
    cases r with
    | ok pod => exact hsame w' hans.2
    | error err => exact hsame w' hans
  | updateTaskStatus t =>
    rcases hans with ⟨_, hw⟩ | ⟨y, s, hy, halive, hserve, rfl⟩
    · exact hsame w' hw
    · have ht : t.uid = x.task.uid := by
        obtain ⟨b, rfl, _⟩ := ho
        rfl
      rw [ht] at hy ⊢
      rw [hx] at hy
      cases hy
      have hkeeps := hserve.keeps_version hversion ho
      refine ⟨?_, ?_, ?_⟩
      · apply h.setObject (x := { x with store := s }) rfl
          ((h.task _ x hx).serve hserve hversion ho)
        · intro y hy
          rw [hx] at hy
          cases hy
          refine ⟨rfl, fun n b hb => ?_⟩
          rcases hserve.cases hversion ho with rfl | ⟨c, _, _, _, _, rfl⟩
          · exact hb
          · exact Versioned.getElem?_write hb
        · intro _ hphase
          dsimp only at hphase ⊢
          rcases hserve.cases hversion ho with rfl | ⟨b, hb, hacc, _, _, rfl⟩
          · exact h.owned _ x hx halive hphase
          · rw [Versioned.write_current] at hphase ⊢
            exact hrunning b hb hphase x hx halive hacc
      · intro other hother
        apply undisturbed_setObject
        intro y hy
        rw [hx] at hy
        cases hy
        exact ⟨rfl, fun h => h, fun hname => absurd hname.symm hother⟩
      · refine ⟨{ x with store := s }, ?_, rfl, hkeeps⟩
        rw [object_setObject, if_pos rfl]
  | _ => exact hsame w' hans

/-- Under its condition a new pod leaves alone those that are relied on. -/
theorem Made.addPod {pod : Pod} (hown : OwnName w (.createPod pod) (.ok ()) w)
    {u : String} {x : TaskObject} {p : String} (hx : w.object u = some x) (hrelies : x.Relies p)
    (hmade : Made w u p) : Made (w.addPod pod) u p := by
  obtain ⟨last, hlast, hcontroller⟩ := hmade
  by_cases hp : p = pod.name
  · subst hp
    have hsame : pod.controller = some u := by
      by_contra hne
      have hfree := hown last hlast fun heq => hne (heq.symm.trans hcontroller)
      exact hfree.2 u hcontroller x hx hrelies
    exact ⟨pod, if_pos rfl, hsame⟩
  · exact ⟨last, (if_neg hp).trans hlast, hcontroller⟩

theorem TaskObject.relies_of_running {x : TaskObject} (halive : x.alive = true)
    (hphase : x.store.current.phase = .running)
    (hname : x.store.current.workerPod = workerPodName x.task.name x.store.current.retryCount) :
    x.Relies x.store.current.workerPod := by
  refine ⟨halive, ?_, hname.symm⟩
  rw [hphase]
  decide

theorem NamespaceInv.addPod (h : NamespaceInv w) (hheld : Holds task n a w) {agent : Agent}
    (hown : OwnName w (.createPod (podFor (task.version n a) agent)) (.ok ()) w) :
    NamespaceInv (w.addPod (podFor (task.version n a) agent)) := by
  refine ⟨h.uid, h.task, ?_, ?_, ?_⟩
  · intro p pod hpod
    unfold Namespace.addPod at hpod
    dsimp only at hpod
    split at hpod
    · rename_i hp
      obtain ⟨x, hx, rfl, _, hversion⟩ := hheld
      cases hpod
      exact ⟨hp.symm, _, x, n, a, agent, hx, hversion, rfl⟩
    · exact h.made_for p pod hpod
  · intro p hp
    unfold Namespace.addPod at hp ⊢
    dsimp only at hp ⊢
    split
    · exact ⟨_, rfl⟩
    · rename_i hne
      rw [if_neg hne] at hp
      exact h.present p hp
  · intro u x hx halive hphase
    obtain ⟨hname, hmade⟩ := h.owned u x hx halive hphase
    refine ⟨hname, ?_⟩
    have huid : x.task.uid = u := h.uid u x hx
    rw [huid] at hmade ⊢
    exact hmade.addPod hown hx (TaskObject.relies_of_running halive hphase hname)

theorem undisturbed_addPod {pod : Pod} (hown : OwnName w (.createPod pod) (.ok ()) w)
    (name : String) : Undisturbed name w (w.addPod pod) :=
  ⟨fun _ x hx => ⟨x, hx, rfl, fun h => h, fun _ => rfl⟩,
    fun _ _ _ hx hrelies _ hmade => hmade.addPod hown hx hrelies⟩

/-- The request for a pod; once it is answered with success or with AlreadyExists,
the pod of the name is this task's. -/
theorem NamespaceInv.createPod (h : NamespaceInv w) (hheld : Holds task n a w) {agent : Agent}
    {r : Except ApiError Unit}
    (hown : OwnName w (.createPod (podFor (task.version n a) agent)) r w')
    (hans : w.Serve (.createPod (podFor (task.version n a) agent)) r w') :
    NamespaceInv w' ∧ UndisturbedOthers task.name w w' ∧ Holds task n a w' ∧
      ((∀ err, r = .error err → err.reason = .alreadyExists) →
        Made w' task.uid (workerPodName task.name a.retryCount)) := by
  have hadded := h.addPod hheld hown
  have hheld' : Holds task n a (w.addPod (podFor (task.version n a) agent)) := hheld
  have hmade : Made (w.addPod (podFor (task.version n a) agent)) task.uid
      (workerPodName task.name a.retryCount) := ⟨_, if_pos rfl, rfl⟩
  have hothers : UndisturbedOthers task.name w (w.addPod (podFor (task.version n a) agent)) :=
    fun other _ => undisturbed_addPod hown other
  cases r with
  | ok _ =>
    obtain ⟨_, rfl⟩ := hans
    exact ⟨hadded, hothers, hheld', fun _ => hmade⟩
  | error err =>
    obtain ⟨hpresent, hw⟩ := hans
    rcases hw with rfl | ⟨_, rfl⟩
    · refine ⟨h, fun other _ => .refl other w', hheld, fun hexists => ?_⟩
      have hthere := hpresent (hexists err rfl)
      obtain ⟨last, hlast⟩ := h.present _ hthere
      refine ⟨last, hlast, ?_⟩
      by_contra hne
      have hgone := (hown last hlast hne).1
      rw [hthere] at hgone
      cases hgone
    · exact ⟨hadded, hothers, hheld', fun _ => hmade⟩

/-! ## One Reconcile -/

/-- Calls that ask for no pod and start no attempt. -/
def Tame (t : AgentTask) (o : ApiOp) : Prop :=
  MayCall true t o ∧ (∀ pod, o ≠ .createPod pod) ∧
    ∀ t', o = .updateTaskStatus t' → t'.status.phase = .running →
      t.status.phase = .running ∧ t'.status.workerPod = t.status.workerPod ∧
        t'.status.retryCount = t.status.retryCount

theorem Bookkeeping.tame {t : AgentTask} {o : ApiOp} (h : Bookkeeping o) : Tame t o := by
  refine ⟨h.mayCall, ?_, ?_⟩
  · rintro pod rfl
    exact h.elim
  · rintro t' rfl
    exact h.elim

theorem MayWrite.tame {t : AgentTask} {b : AgentTaskStatus} (h : MayWrite t b)
    (ht : t.status.phase ≠ .pending) (hb : b.phase = .running) :
    t.status.phase = .running ∧ b.workerPod = t.status.workerPod ∧
      b.retryCount = t.status.retryCount := by
  unfold MayWrite at h
  split at h
  · subst h
    cases hb
  · exact absurd ‹_› ht
  · rename_i hrunning
    rcases h with ⟨_, _, _, rfl⟩ | ⟨_, _, rfl⟩ | ⟨status, rfl | ⟨_, _, rfl⟩ | ⟨_, _, _, rfl⟩⟩
    · cases hb
    · cases hb
    · exact ⟨hrunning, rfl, rfl⟩
    · cases hb
    · cases hb
  · rcases h with ⟨_, rfl⟩ | ⟨phase, _, _, hphase, rfl⟩
    · cases hb
    · simp [show phase = Phase.running from hb] at hphase
  · rcases h with ⟨_, rfl⟩ | ⟨phase, _, _, hphase, rfl⟩
    · cases hb
    · simp [show phase = Phase.running from hb] at hphase
  · rename_i hfailed
    rcases h with ⟨_, _, rfl⟩ | ⟨_, _, rfl⟩
    · cases hb
    · rw [show t.status.phase = Phase.running from hb] at hfailed
      cases hfailed
  · exact h.elim
  · exact h.elim
  · subst h
    cases hb

theorem MayCall.tame {t : AgentTask} {o : ApiOp} (h : MayCall true t o)
    (ht : t.status.phase ≠ .pending) : Tame t o := by
  refine ⟨h, ?_, ?_⟩
  · rintro pod rfl
    exact ht h.1
  · rintro t' rfl hb
    obtain ⟨b, rfl, hwrite⟩ := h
    exact hwrite.tame ht hb

section Keeping

variable {ns : String}

/-- What the other Reconciles and the namespace itself may do to those of `name`. -/
def Others (name : String) (w w' : Namespace) : Prop :=
  (NamespaceInv w → NamespaceInv w') ∧ Undisturbed name w w'

/-- Whatever the Reconcile does, the invariant and the other tasks stand. -/
abbrev KeepsNamespace (ns name : String) (p : OperatorM Outcome) (w : Namespace) : Prop :=
  Keeps ((namespaceEnv ns).restrict OwnName) NamespaceInv (Others name)
    (fun w w' => ∀ other, other ≠ name → Others other w w') (fun _ _ => True) p w

theorem keepsNamespace_tame {p : OperatorM Outcome} (hp : p.Uses (Tame (task.version n a)))
    (hinv : NamespaceInv w) (hheld : Holds task n a w) : KeepsNamespace ns task.name p w := by
  have hkeep : Keeps ((namespaceEnv ns).restrict OwnName) NamespaceInv (Others task.name)
      (fun w w' => ∀ other, other ≠ task.name → Others other w w')
      (fun _ w => NamespaceInv w ∧ Holds task n a w) p w := by
    apply Keeps.of_uses hp ⟨hinv, hheld⟩
    · rintro w₁ w₂ ⟨hinv, hheld⟩ ⟨hkeeps, hw⟩
      exact ⟨hkeeps hinv, hheld.undisturbed hw⟩
    · rintro o ⟨ho, hcreate, htame⟩ w r w' ⟨hinv, hheld⟩ ⟨hans, _⟩
      have hcall := hinv.call hheld ho hcreate (fun b hb hphase x hx halive hacc => by
        obtain ⟨hrunning, hpod, hretry⟩ := htame _ hb hphase
        obtain ⟨y, hy, rfl, _, hversion⟩ := hheld
        rw [hx] at hy
        cases hy
        have hcurrent := hacc.current hversion
        obtain ⟨hname, hmade⟩ := hinv.owned _ x hx halive (by rw [hcurrent]; exact hrunning)
        rw [hcurrent] at hname hmade
        refine ⟨?_, ?_⟩
        · rw [show b.workerPod = a.workerPod from hpod, show b.retryCount = a.retryCount from hretry]
          exact hname
        · rw [show b.workerPod = a.workerPod from hpod]
          exact hmade) hans
      exact ⟨hcall.1, fun other hother => ⟨fun _ => hcall.1, hcall.2.1 other hother⟩,
        hcall.1, hcall.2.2⟩
  exact hkeep.mono fun _ _ _ => trivial

theorem keepsNamespace_same {name : String} {o : ApiOp} {next : o.Resp → OperatorM Outcome}
    (hsame : ∀ (w : Namespace) r w', w.Serve o r w' → w' = w) (keep : Namespace → Prop)
    (stable : ∀ w w', keep w → Undisturbed name w w' → keep w') (hinv : NamespaceInv w)
    (hkeep : keep w)
    (rest : ∀ r w, NamespaceInv w → keep w → KeepsNamespace ns name (next r) w) :
    KeepsNamespace ns name (.call o next) w := by
  apply Keeps.call (fun _ w => keep w)
  · exact fun r w₁ w₂ hk hw _ => stable w₁ w₂ hk hw.2
  · exact fun w₁ w₂ hi hw => hw.1 hi
  · rintro r w₁ ⟨hans, _⟩
    have hw := hsame w r w₁ hans
    subst hw
    exact ⟨hinv, fun other _ => ⟨fun h => h, .refl other w₁⟩, hkeep⟩
  · exact rest

/-- The pod of the attempt is the task's own as long as its record can be written. -/
def Secured (task : AgentTask) (n : Nat) (a : AgentTaskStatus) (w : Namespace) : Prop :=
  Holds task n a w ∧ ∀ x, w.object task.uid = some x → x.alive = true → x.store.Accepts n →
    Made w task.uid (workerPodName task.name a.retryCount)

theorem Secured.undisturbed (ha : a.phase = .pending) (h : Secured task n a w)
    (hw : Undisturbed task.name w w') : Secured task n a w' := by
  obtain ⟨hheld, hmade⟩ := h
  refine ⟨hheld.undisturbed hw, fun y hy halive hacc => ?_⟩
  obtain ⟨x, hx, rfl, _, hversion⟩ := hheld
  obtain ⟨x', hx', _, hstill, hstore⟩ := hw.kept _ x hx
  rw [hy] at hx'
  cases hx'
  rw [hstore rfl] at hacc
  have hcurrent := hacc.current hversion
  apply hw.made _ x _ hx _ rfl (hmade x hx (hstill halive) hacc)
  refine ⟨hstill halive, ?_, ?_⟩
  · rw [hcurrent, ha]
    decide
  · rw [hcurrent]

theorem recordRunning_keepsNamespace (ha : a.phase = .pending) (hinv : NamespaceInv w)
    (h : Secured task n a w) :
    KeepsNamespace ns task.name
      (recordRunning (task.version n a) (workerPodName task.name a.retryCount)) w := by
  apply keepsNamespace_same (o := .now) (fun w r w' hans => hans) (Secured task n a)
    (fun w w' hk hw => hk.undisturbed ha hw) hinv h
  rintro time w hinv ⟨hheld, hmade⟩
  apply Keeps.call (fun _ w => Holds task n a w)
  · exact fun r w₁ w₂ hk hw _ => hk.undisturbed hw.2
  · exact fun w₁ w₂ hi hw => hw.1 hi
  · rintro r w₁ ⟨hans, _⟩
    have huses : (recordRunning (task.version n a) (workerPodName task.name a.retryCount)).Uses
        (MayCall true (task.version n a)) := recordRunning_uses (t := task.version n a) ha
    have hinv' := hinv.call hheld (huses.2 time).1 (fun pod h => by cases h) (fun b hb _ x hx halive hacc => by
      cases hb
      exact ⟨rfl, hmade x hx halive hacc⟩) hans
    exact ⟨hinv'.1, fun other hother => ⟨fun _ => hinv'.1, hinv'.2.1 other hother⟩, hinv'.2.2⟩
  · intro r w₁ hinv hheld
    cases r with
    | error err => trivial
    | ok _ =>
      apply keepsNamespace_tame _ hinv hheld
      exact (updateAgentStatus_uses (fun _ h => h.tame) _ _).bind fun _ => trivial

theorem postpone_keepsNamespace (ha : a.phase = .pending) (message : String)
    (hinv : NamespaceInv w) (hheld : Holds task n a w) :
    KeepsNamespace ns task.name (postpone (task.version n a) message) w := by
  apply keepsNamespace_tame _ hinv hheld
  refine ⟨⟨(postpone_uses (t := task.version n a) ha message).1, ?_, ?_⟩, fun _ => trivial⟩
  · intro pod h
    cases h
  · intro t' h hphase
    cases h
    rw [show a.phase = Phase.running from hphase] at ha
    cases ha

theorem handlePending_keepsNamespace (ha : a.phase = .pending) (hinv : NamespaceInv w)
    (hheld : Holds task n a w) :
    KeepsNamespace ns task.name (handlePending (task.version n a)) w := by
  apply keepsNamespace_same (o := .getAgent _) (fun w r w' hans => hans) (Holds task n a)
    (fun w w' hk hw => hk.undisturbed hw) hinv hheld
  intro r w hinv hheld
  cases r with
  | error err => exact postpone_keepsNamespace ha _ hinv hheld
  | ok agent =>
    apply keepsNamespace_same (o := .setControllerReference _ _) (fun w r w' hans => hans)
      (Holds task n a) (fun w w' hk hw => hk.undisturbed hw) hinv hheld
    intro r w hinv hheld
    cases r with
    | error err => trivial
    | ok _ =>
      apply Keeps.call (fun r w => Holds task n a w ∧
        ((∀ err, r = .error err → err.reason = .alreadyExists) → Secured task n a w))
      · rintro r w₁ w₂ ⟨hk, hs⟩ hw _
        exact ⟨hk.undisturbed hw.2, fun hr => (hs hr).undisturbed ha hw.2⟩
      · exact fun w₁ w₂ hi hw => hw.1 hi
      · rintro r w₁ ⟨hans, hown⟩
        obtain ⟨hinv', hothers, hheld', hmade⟩ := hinv.createPod hheld hown hans
        refine ⟨hinv', fun other hother => ⟨fun _ => hinv', hothers other hother⟩, hheld', ?_⟩
        exact fun hr => ⟨hheld', fun x _ _ _ => hmade hr⟩
      · rintro r w₁ hinv ⟨hheld, hsecured⟩
        cases r with
        | ok _ => exact recordRunning_keepsNamespace ha hinv (hsecured fun err h => by cases h)
        | error err =>
          change KeepsNamespace ns task.name (if err.reason = .alreadyExists then
            recordRunning (task.version n a) (workerPodName task.name a.retryCount)
            else postpone (task.version n a) _) w₁
          split
          · rename_i hexists
            apply recordRunning_keepsNamespace ha hinv (hsecured _)
            rintro _ h
            cases h
            exact hexists
          · exact postpone_keepsNamespace ha _ hinv hheld

theorem dispatch_keepsNamespace (hinv : NamespaceInv w) (hheld : Holds task n a w) :
    KeepsNamespace ns task.name (dispatch (task.version n a)) w := by
  by_cases ha : a.phase = .pending
  · have hdispatch : dispatch (task.version n a) = handlePending (task.version n a) := by
      unfold dispatch
      simp only [version_status, ha]
    rw [hdispatch]
    exact handlePending_keepsNamespace ha hinv hheld
  · apply keepsNamespace_tame _ hinv hheld
    exact (dispatch_uses _).mono fun o ho => ho.tame ha

theorem reconcile_keepsNamespace (name : String) (hinv : NamespaceInv w) :
    KeepsNamespace ns name (reconcile ⟨name, ns⟩) w := by
  apply Keeps.call (fun r w => ∀ t, r = .ok t → ∃ task n a, t = task.version n a ∧
    task.name = name ∧ Holds task n a w)
  · intro r w₁ w₂ h hw _ t ht
    obtain ⟨task, n, a, rfl, rfl, hheld⟩ := h t ht
    exact ⟨task, n, a, rfl, rfl, hheld.undisturbed hw.2⟩
  · exact fun w₁ w₂ hi hw => hw.1 hi
  · rintro r w₁ ⟨hans, _⟩
    cases r with
    | error err =>
      have hw : w₁ = w := hans
      subst hw
      exact ⟨hinv, fun other _ => ⟨fun h => h, .refl other w₁⟩, fun t ht => by cases ht⟩
    | ok t =>
      obtain ⟨x, s, hx, hkey, hserve, rfl⟩ := hans
      have htask := (hinv.task _ x hx).serve_read hserve
      obtain ⟨n, a, rfl, hserves, rfl⟩ := hserve
      have hname : x.task.name = name := congrArg NamespacedName.name hkey
      have hinv' := hinv.setObject (x := { x with store := x.store.read n }) rfl htask
        (fun y hy => by
          have hyx : y = x := Option.some.inj (hy.symm.trans hx)
          subst hyx
          exact ⟨rfl, fun _ _ h => h⟩)
        (fun halive hphase => hinv.owned _ x hx halive hphase)
      refine ⟨hinv', fun other hother => ⟨fun _ => hinv', undisturbed_setObject fun y hy => ?_⟩, ?_⟩
      · have hyx : y = x := Option.some.inj (hy.symm.trans hx)
        subst hyx
        exact ⟨rfl, fun h => h, fun h => absurd (h.symm.trans hname) hother⟩
      · intro t ht
        cases ht
        refine ⟨x.task, n, a, rfl, hname, { x with store := x.store.read n }, ?_, rfl, rfl, hserves.2⟩
        exact if_pos rfl
  · intro r w₁ hinv h
    cases r with
    | error err =>
      change KeepsNamespace ns name (if err.reason = .notFound then _ else _) w₁
      split <;> trivial
    | ok t =>
      obtain ⟨task, n, a, rfl, rfl, hheld⟩ := h t rfl
      exact dispatch_keepsNamespace hinv hheld

end Keeping

variable {ns : String}

theorem NamespaceReachable.inv {c : Pool String ApiOp ApiOp.Resp Outcome Namespace}
    (hc : NamespaceReachable ((namespaceEnv ns).restrict OwnName) ns c) :
    NamespaceInv c.world := by
  apply Pool.Reachable.invariant NamespaceInv Others
    (fun name w w' => ∀ other, other ≠ name → Others other w w') _ _ _ _ NamespaceInv.empty hc
  · exact fun w w' hinv hd => Namespace.Drift.keeps hd hinv
  · exact fun name w w' hd => ⟨fun hinv => Namespace.Drift.keeps hd hinv,
      Namespace.Drift.undisturbed hd name⟩
  · exact fun i j w w' hij h => h j hij.symm
  · exact fun name w hinv => reconcile_keepsNamespace name hinv

/-- As long as no pod is in the way of another object's, a Running task names the
pod that was made for that very object and attempt, and no other one does. -/
theorem running_owns_pod {c : Pool String ApiOp ApiOp.Resp Outcome Namespace}
    (hc : NamespaceReachable ((namespaceEnv ns).restrict OwnName) ns c) {uid : String}
    {x : TaskObject} (hx : c.world.object uid = some x) (halive : x.alive = true)
    (hphase : x.store.current.phase = .running) :
    (∃ n a agent, x.store.versions[n]? = some a ∧
        a.retryCount = x.store.current.retryCount ∧
        c.world.created x.store.current.workerPod = some (podFor (x.task.version n a) agent)) ∧
      ∀ other y, c.world.object other = some y → y.alive = true →
        y.store.current.phase = .running →
        y.store.current.workerPod = x.store.current.workerPod → other = uid := by
  have hinv := NamespaceReachable.inv hc
  obtain ⟨hname, pod, hpod, hcontroller⟩ := hinv.owned uid x hx halive hphase
  rw [hinv.uid uid x hx] at hcontroller
  constructor
  · obtain ⟨hnamed, u, y, n, a, agent, hy, ha, rfl⟩ := hinv.made_for _ _ hpod
    have hu : y.task.uid = uid := Option.some.inj hcontroller
    rw [hinv.uid u y hy] at hu
    subst hu
    have hyx : y = x := Option.some.inj (hy.symm.trans hx)
    subst hyx
    refine ⟨n, a, agent, ha, ?_, hpod⟩
    have htask := hinv.task u y hx
    apply workerPodName_injective (htask.retryCount (List.mem_of_getElem? ha)).1
      (htask.retryCount y.store.current_mem).1
    exact (show workerPodName y.task.name a.retryCount = _ from hnamed).trans hname
  · intro other y hy halive' hphase' hsame
    obtain ⟨_, pod', hpod', hcontroller'⟩ := hinv.owned other y hy halive' hphase'
    rw [hinv.uid other y hy] at hcontroller'
    rw [hsame, hpod] at hpod'
    cases hpod'
    exact Option.some.inj (hcontroller'.symm.trans hcontroller)

/-! ## Two tasks, one name -/

namespace Namespace

/-- Current reads of one object, writes that go through, and pods in a given phase. -/
def respond (uid : String) (phase : PodPhase) (w : Namespace) : (o : ApiOp) → o.Resp × Namespace
  | .getTask key =>
    match w.object uid with
    | some x =>
      if x.task.uid = uid ∧ x.task.key = key ∧ x.store.seen ≤ x.store.latest then
        (.ok (x.task.version x.store.latest x.store.current),
          w.setObject uid { x with store := x.store.read x.store.latest })
      else (.error ⟨.notFound, "not found"⟩, w)
    | none => (.error ⟨.notFound, "not found"⟩, w)
  | .updateTaskStatus t =>
    match w.object t.uid with
    | some x =>
      if x.alive = true ∧ x.store.Accepts t.resourceVersion then
        (.ok (), w.setObject t.uid { x with store := x.store.write t.status })
      else (.error Behaviour.conflict, w)
    | none => (.error ⟨.notFound, "not found"⟩, w)
  | .createPod pod =>
    if w.present pod.name = true then (.error ⟨.alreadyExists, "already exists"⟩, w)
    else (.ok (), w.addPod pod)
  | .getPod key =>
    match w.created key.name with
    | some pod => (.ok { pod with phase := phase, podIP := "10.0.0.1" }, w)
    | none => (.error ⟨.notFound, "not found"⟩, w)
  | .getAgent _ => (.ok demoAgent, w)
  | .listTasks _ => (.ok [], w)
  | .setControllerReference _ _ => (.ok (), w)
  | .deletePod _ => (.ok (), w)
  | .updateAgentStatus _ => (.ok (), w)
  | .httpGet _ => (.error "connection refused", w)
  | .httpPost _ => (.error "connection refused", w)
  | .now => ((0 : Time), w)

theorem serve_respond (uid : String) (phase : PodPhase) (w : Namespace) (o : ApiOp) :
    w.Serve o (w.respond uid phase o).1 (w.respond uid phase o).2 := by
  cases o with
  | getTask key =>
    unfold respond
    dsimp only
    split
    · rename_i x hx
      split
      · rename_i h
        obtain ⟨rfl, hkey, hseen⟩ := h
        exact ⟨x, x.store.read x.store.latest, hx, hkey,
          ⟨_, _, rfl, ⟨hseen, x.store.current_eq_getElem?⟩, rfl⟩, rfl⟩
      · rfl
    · rfl
  | updateTaskStatus t =>
    unfold respond
    dsimp only
    split
    · rename_i x hx
      split
      · rename_i h
        exact Or.inr ⟨x, x.store.write t.status, hx, h.1, ⟨h.2, rfl⟩, rfl⟩
      · exact Or.inl ⟨⟨_, rfl⟩, rfl⟩
    · exact Or.inl ⟨⟨_, rfl⟩, rfl⟩
  | createPod pod =>
    unfold respond
    dsimp only
    split
    · rename_i hpresent
      exact ⟨fun _ => hpresent, Or.inl rfl⟩
    · rename_i hpresent
      exact ⟨by simpa using hpresent, rfl⟩
  | getPod key =>
    unfold respond
    dsimp only
    split
    · rename_i pod hpod
      exact ⟨⟨pod, hpod, rfl⟩, rfl⟩
    · rfl
  | _ => rfl

end Namespace

def demoTaskNamed (name uid : String) : AgentTask := { demoTask with name := name, uid := uid }

/-- Two new tasks, the name of one being the name of the other with an affix. -/
def twoTasks : Namespace :=
  (Namespace.empty.setObject "1" ⟨demoTaskNamed "a" "1", true, Versioned.start .empty⟩).setObject
    "2" ⟨demoTaskNamed "a-r1" "2", true, Versioned.start .empty⟩

/-- One complete Reconcile of an object. -/
def reconcileObject (name uid : String) (phase : PodPhase) (w : Namespace) : Namespace :=
  (play (Namespace.respond uid phase) (reconcile ⟨name, "default"⟩) w).2.2

/-- Task `a` starts its first attempt. -/
def startedA : Namespace :=
  reconcileObject "a" "1" .pending (reconcileObject "a" "1" .pending twoTasks)

/-- Its pod fails and it is to be retried; then task `a-r1` starts. -/
def startedBoth : Namespace :=
  reconcileObject "a-r1" "2" .pending (reconcileObject "a-r1" "2" .pending
    (reconcileObject "a" "1" .pending (reconcileObject "a" "1" .failed startedA)))

/-- The retry of `a` finds the pod of `a-r1` and takes it for its own. -/
def collided : Namespace := reconcileObject "a" "1" .pending startedBoth

theorem twoTasks_reachable {env : Environment ApiOp ApiOp.Resp Namespace}
    (henv : env.drift = Namespace.Drift "default") :
    NamespaceReachable env "default" (Pool.idle twoTasks) := by
  have hfirst : NamespaceReachable env "default" (Pool.idle
      (Namespace.empty.setObject "1" ⟨demoTaskNamed "a" "1", true, Versioned.start .empty⟩)) := by
    apply Pool.Reachable.drift .refl
    rw [henv]
    exact .create (demoTaskNamed "a" "1") rfl rfl fun u x hx => by cases hx
  apply hfirst.drift
  rw [henv]
  refine .create (demoTaskNamed "a-r1" "2") rfl rfl fun u x hx _ => ?_
  rw [object_setObject] at hx
  split at hx
  · cases hx
    decide
  · cases hx

theorem reconcileObject_reachable {name uid : String} {phase : PodPhase} {w : Namespace}
    (h : NamespaceReachable (namespaceEnv "default") "default" (Pool.idle w)) :
    NamespaceReachable (namespaceEnv "default") "default"
      (Pool.idle (reconcileObject name uid phase w)) :=
  h.execute (i := name) (Executes.of_play (Namespace.serve_respond uid phase) _ w)

/-- Two Running tasks name one pod, which was made for the second. -/
theorem shared_pod :
    NamespaceReachable (namespaceEnv "default") "default" (Pool.idle collided) ∧
      ∃ x y pod, collided.object "1" = some x ∧ collided.object "2" = some y ∧
        x.store.current.phase = .running ∧ y.store.current.phase = .running ∧
        x.alive = true ∧ y.alive = true ∧
        x.store.current.workerPod = y.store.current.workerPod ∧
        collided.created x.store.current.workerPod = some pod ∧
        pod.controller = some y.task.uid ∧ x.task.uid ≠ y.task.uid := by
  constructor
  · have hstarted : NamespaceReachable (namespaceEnv "default") "default" (Pool.idle startedA) :=
      reconcileObject_reachable (reconcileObject_reachable (twoTasks_reachable rfl))
    have hretry : NamespaceReachable (namespaceEnv "default") "default" (Pool.idle startedBoth) :=
      reconcileObject_reachable (reconcileObject_reachable
        (reconcileObject_reachable (reconcileObject_reachable hstarted)))
    exact reconcileObject_reachable hretry
  · let x := (collided.object "1").get (by decide)
    let y := (collided.object "2").get (by decide)
    let pod := (collided.created x.store.current.workerPod).get (by decide)
    have hx : collided.object "1" = some x := by simp [x]
    have hy : collided.object "2" = some y := by simp [y]
    have hpod : collided.created x.store.current.workerPod = some pod := by simp [pod]
    exact ⟨x, y, pod, hx, hy, by decide, by decide, by decide, by decide, by decide, hpod,
      by decide, by decide⟩

theorem running_owns_pod_demo :
    ∃ x, startedA.object "1" = some x ∧ ∃ n a agent, x.store.versions[n]? = some a ∧
      a.retryCount = x.store.current.retryCount ∧
      startedA.created x.store.current.workerPod = some (podFor (x.task.version n a) agent) := by
  have hrun : NamespaceReachable ((namespaceEnv "default").restrict OwnName) "default"
      (Pool.idle startedA) := by
    have hstep : ∀ {w : Namespace}, NamespaceReachable ((namespaceEnv "default").restrict OwnName)
          "default" (Pool.idle w) →
        PlaysWithin OwnName (Namespace.respond "1" .pending) (reconcile ⟨"a", "default"⟩) w →
        NamespaceReachable ((namespaceEnv "default").restrict OwnName) "default"
          (Pool.idle (reconcileObject "a" "1" .pending w)) :=
      fun h hw => h.execute (i := "a") (Executes.of_play_restrict (Namespace.serve_respond "1" .pending) hw)
    exact hstep (hstep (twoTasks_reachable rfl) (by decide)) (by decide)
  let x := (startedA.object "1").get (by decide)
  have hx : startedA.object "1" = some x := by simp [x]
  exact ⟨x, hx, (running_owns_pod hrun hx (by decide) (by decide)).1⟩

end BulletFarm.Operator
