import BulletFarm.Operator.Caches
import BulletFarm.Operator.Namespace

/-!
# The order of the attempts

Pods are asked for attempt by attempt: none again after the next one, and none before the one
before it was granted.
-/

namespace BulletFarm.Operator

open Interaction Program

set_option autoImplicit false

abbrev PodRequest : Type := Pod × Except ApiError Unit

/-- A history of the requests for pods, with their answers. -/
def recordRequest {W : Type} (log : List PodRequest) (_ : W) : (o : ApiOp) → o.Resp → List PodRequest
  | .createPod pod, r => log ++ [(pod, r)]
  | _, _ => log

theorem recordRequest_keeps {W : Type} {log : List PodRequest} {e : PodRequest} (w : W) (o : ApiOp)
    (r : o.Resp) (h : e ∈ log) : e ∈ recordRequest log w o r := by
  cases o with
  | createPod pod => exact List.mem_append_left _ h
  | _ => exact h

variable {task : AgentTask} {log before : List PodRequest} {s s' : Versioned AgentTaskStatus}
  {a b : AgentTaskStatus}

/-- The request is for attempt `k`, after requests for it and for earlier ones only, and after
the attempt before it was granted its pod. -/
structure InTurn (task : AgentTask) (before : List PodRequest) (entry : PodRequest) (k : Int) : Prop where
  bounded : 0 ≤ k ∧ k ≤ RetryBound task.spec
  name : entry.1.name = workerPodName task.name k
  latest : ∀ e ∈ before, ∃ i, 0 ≤ i ∧ i ≤ k ∧ e.1.name = workerPodName task.name i
  granted : 0 < k → ∃ e ∈ before, e.1.name = workerPodName task.name (k - 1) ∧ Granted e.2

/-- Every request was made when it was the turn of its attempt. -/
def Ordered (task : AgentTask) (log : List PodRequest) : Prop :=
  ∀ before entry rest, log = before ++ entry :: rest → ∃ k, InTurn task before entry k

theorem Ordered.concat (h : Ordered task log) {entry : PodRequest} {k : Int}
    (hentry : InTurn task log entry k) : Ordered task (log ++ [entry]) := by
  intro before e rest heq
  rcases List.eq_nil_or_concat rest with rfl | ⟨rest, last, rfl⟩
  · obtain ⟨rfl, hlast⟩ := List.append_inj' heq rfl
    cases hlast
    exact ⟨k, hentry⟩
  · rw [List.concat_eq_append, ← List.cons_append, ← List.append_assoc] at heq
    exact h before e rest (List.append_inj' heq rfl).1

/-- What holds of the requests so far: each was for a version read by then, and every attempt
that has begun was granted its pod. -/
structure Requested (task : AgentTask) (s : Versioned AgentTaskStatus) (log : List PodRequest) :
    Prop where
  lifecycle : TaskInv task.spec s
  read : ∀ e ∈ log, ∃ n a, n ≤ s.seen ∧ s.versions[n]? = some a ∧
    e.1.name = workerPodName task.name a.retryCount
  granted : ∀ a ∈ s.versions, a.phase ∉ [Phase.unset, .pending] →
    ∃ e ∈ log, e.1.name = workerPodName task.name a.retryCount ∧ Granted e.2
  ordered : Ordered task log

/-- Only an attempt that has failed is followed by another one. -/
theorem TaskInv.attempt_before {spec : AgentTaskSpec} (h : TaskInv spec s) (ha : a ∈ s.versions)
    (hpos : 0 < a.retryCount) :
    ∃ b ∈ s.versions, b.phase = .failed ∧ b.retryCount = a.retryCount - 1 := by
  obtain ⟨n, hn⟩ := List.getElem?_of_mem ha
  induction n generalizing a with
  | zero =>
    rw [h.first] at hn
    cases hn
    simp [AgentTaskStatus.empty] at hpos
  | succ n ih =>
    have hlast := (List.getElem?_eq_some_iff.mp hn).1
    have hb := List.getElem?_eq_getElem (show n < s.versions.length by omega)
    have hmem := List.mem_of_getElem? hb
    have hmove := h.moves n _ _ hb hn
    have hcount := hmove.retry
    split at hcount
    · next hretry => exact ⟨_, hmem, hretry.1, by omega⟩
    · rw [hcount] at hpos ⊢
      exact ih hmem hpos hb

namespace Requested

theorem start (task : AgentTask) : Requested task (Versioned.start .empty) [] := by
  refine ⟨TaskInv.start task.spec, fun e he => (by cases he), ?_, ?_⟩
  · intro a ha hphase
    rw [show a = .empty by simpa using ha] at hphase
    simp [AgentTaskStatus.empty] at hphase
  · intro before entry rest heq
    simp at heq

theorem congr (h : Requested task s log) (hinv : TaskInv task.spec s')
    (hversions : s'.versions = s.versions) (hseen : s.seen ≤ s'.seen) : Requested task s' log := by
  refine ⟨hinv, fun e he => ?_, by rw [hversions]; exact h.granted, h.ordered⟩
  obtain ⟨n, a, hn, ha, hname⟩ := h.read e he
  exact ⟨n, a, Nat.le_trans hn hseen, by rw [hversions]; exact ha, hname⟩

/-- A request for the pod of the version read comes in its turn. -/
theorem request (h : Requested task s log) (ha : s.versions[s.seen]? = some a) {pod : Pod}
    (hpod : pod.name = workerPodName task.name a.retryCount) (r : Except ApiError Unit) :
    Requested task s (log ++ [(pod, r)]) := by
  have hmem := List.mem_of_getElem? ha
  refine ⟨h.lifecycle, ?_, ?_, ?_⟩
  · intro e he
    rcases List.mem_append.mp he with he | he
    · exact h.read e he
    · rw [List.mem_singleton.mp he]
      exact ⟨s.seen, a, Nat.le_refl _, ha, hpod⟩
  · intro b hb hphase
    obtain ⟨e, he, hgranted⟩ := h.granted b hb hphase
    exact ⟨e, List.mem_append_left _ he, hgranted⟩
  · apply h.ordered.concat (k := a.retryCount)
    refine ⟨h.lifecycle.retryCount hmem, hpod, ?_, ?_⟩
    · intro e he
      obtain ⟨n, b, hn, hb, hname⟩ := h.read e he
      exact ⟨b.retryCount, (h.lifecycle.retryCount (List.mem_of_getElem? hb)).1,
        h.lifecycle.retryCount_le hn hb ha, hname⟩
    · intro hpos
      obtain ⟨b, hb, hfailed, hcount⟩ := h.lifecycle.attempt_before hmem hpos
      rw [← hcount]
      exact h.granted b hb (by simp [hfailed])

/-- A version is written: if an attempt begins with it, its pod was granted. -/
theorem write (h : Requested task s log) (ha : s.current = a) (hmove : StatusMove task.spec a b)
    (hinv : TaskInv task.spec (s.write b))
    (hgranted : a.phase = .pending → b.phase = .running →
      ∃ e ∈ log, e.1.name = workerPodName task.name a.retryCount ∧ Granted e.2) :
    Requested task (s.write b) log := by
  refine ⟨hinv, ?_, ?_, h.ordered⟩
  · intro e he
    obtain ⟨n, c, hn, hc, hname⟩ := h.read e he
    exact ⟨n, c, by rwa [Versioned.write_seen], Versioned.getElem?_write hc, hname⟩
  · intro c hc hphase
    rcases Versioned.mem_write hc with hc | rfl
    · exact h.granted c hc hphase
    · have hcount := hmove.retry
      rw [if_neg fun hretry => hphase (by simp [hretry.2])] at hcount
      rw [hcount]
      by_cases hbegun : a.phase ∉ [Phase.unset, .pending]
      · exact h.granted a (ha ▸ s.current_mem) hbegun
      · rcases hmove.phase with hsame | hstep
        · exact absurd (hsame ▸ hphase) hbegun
        · generalize hp : a.phase = p at hstep hbegun hgranted
          generalize hq : c.phase = q at hstep hphase hgranted
          cases hstep with
          | run => exact hgranted rfl rfl
          | accept => simp at hphase
          | _ => simp at hbegun

end Requested

section Runs
variable {W : Type} {env : Environment ApiOp ApiOp.Resp W} {store : W → Versioned AgentTaskStatus}

/-- Whatever fails, is stale or is cut short: pods are asked for attempt by attempt. -/
theorem Stores.attempts_ordered (hstore : Stores task env store) {w₀ : W}
    (h₀ : store w₀ = Versioned.start .empty)
    {c : Pool Unit ApiOp ApiOp.Resp Outcome (W × List PodRequest)}
    (hc : Reachable (env.watched recordRequest) task (w₀, []) c) : Ordered task c.world.2 := by
  have hok : ∀ t, (dispatch t).Follows (fun tr o => MayCall true t o ∧ Provided t tr o) [] :=
    fun t => ((dispatch_uses t).follows fun _ _ h => h).and (dispatch_provided t)
  have hrequested : Requested task (store c.world.1) c.world.2 := by
    refine (hstore.watched recordRequest).invariant_follows hok (fun _ _ _ h => h.1)
      (fun w => Requested task (store w.1) w.2)
      (fun _ tr w => ∀ pod r, (⟨.createPod pod, r⟩ : Event ApiOp.Resp) ∈ tr → (pod, r) ∈ w.2)
      ?_ ?_ ?_ ?_ (by rw [h₀]; exact Requested.start task) hc
    · rintro w w' h ⟨hd, hlog⟩
      rw [hstore.drift hd, hlog]
      exact h
    · rintro _ tr w w' h ⟨_, hlog⟩
      rw [hlog]
      exact h
    · rintro w r w' h ⟨hans, hlog⟩
      refine ⟨?_, fun _ _ _ pod r' hin => by cases hin⟩
      have hserve := hstore.answer hans
      have hinv := h.lifecycle.serve_read hserve
      rw [hlog]
      rcases hserve.read with hs | ⟨n, a, _, hserves, hs⟩
      · rw [hs]
        exact h
      · exact h.congr hinv (by rw [hs, Versioned.read_versions]) (by rw [hs]; exact hserves.1)
    · rintro w o r w' a tr h hheld ha ⟨hmay, hprovided⟩ ⟨hans, hlog⟩
      refine ⟨?_, fun pod r' hin => ?_⟩
      · have hserve := hstore.answer hans
        have hinv := h.lifecycle.serve hserve ha hmay
        rw [hlog]
        rcases hserve.cases ha hmay with hsame | ⟨b, rfl, _, hcurrent, hwrite, hnew⟩
        · rw [hsame]
          cases o with
          | createPod pod =>
            obtain ⟨_, agent, rfl⟩ := hmay
            exact h.request ha rfl r
          | _ => exact h
        · rw [hnew] at hinv ⊢
          have hknown := h.lifecycle.known (List.mem_of_getElem? ha)
          apply h.write hcurrent (hwrite.statusMove hknown) hinv
          intro hpending hrunning
          obtain ⟨agent, r', hcreated, hgranted⟩ := hprovided hpending hrunning
          exact ⟨_, hheld _ r' hcreated, rfl, hgranted⟩
      · rw [hlog]
        rcases List.mem_append.mp hin with hin | hin
        · exact recordRequest_keeps _ _ _ (hheld pod r' hin)
        · cases List.mem_singleton.mp hin
          exact List.mem_append_right _ List.mem_cons_self
  exact hrequested.ordered

/-- Two attempts, the first of which fails with its pod; the request for the pod of the second
one is made twice, since the task could not be written. -/
def twoAttempts : List Behaviour :=
  let good := { demoCluster false with reply := fun _ => .error "connection refused" }
  let podless := { good with pod := fun _ => .error ⟨.notFound, "not found"⟩ }
  [good, good, podless, good, { good with writes := false }, good]

theorem attempts_ordered_demo :
    let w := Pool.plays (twoAttempts.map fun b => watching (b.respond demoTask) recordRequest)
      (reconcile demoTask.key) (Versioned.start .empty, [])
    Ordered demoTask w.2 ∧ w.2.map (fun e => e.1.name) = ["worker-t", "worker-t-r1", "worker-t-r1"] :=
  ⟨Stores.attempts_ordered (stores_apiServer demoTask) rfl
    (reachable_behaviours demoTask recordRequest [] twoAttempts), by decide +kernel⟩

end Runs

end BulletFarm.Operator
