import BulletFarm.Operator.TaskRun
import Mathlib.Data.Int.Interval
import Mathlib.Data.Finset.Card

/-!
# Phases, retries and pods of one task

Every persisted change of the status is a `StatusMove`. From that alone follow
the order of the phases, the bound on the retries and the finality of the last
phases; with the reads never more than one write behind, no pod is asked for
once the task is final.
-/

namespace BulletFarm.Operator

open Interaction

set_option autoImplicit false

/-- The arrows of the lifecycle. -/
inductive PhaseMove : Phase → Phase → Prop where
  | accept : PhaseMove .unset .pending
  | run : PhaseMove .pending .running
  | report : PhaseMove .running .waitingForPR
  | complete : PhaseMove .running .completed
  | fail : PhaseMove .running .failed
  | track : PhaseMove .completed .waitingForPR
  | mergeCompleted : PhaseMove .completed .merged
  | closeCompleted : PhaseMove .completed .closed
  | merge : PhaseMove .waitingForPR .merged
  | close : PhaseMove .waitingForPR .closed
  | retry : PhaseMove .failed .pending

/-- One persisted change of a status. -/
structure StatusMove (spec : AgentTaskSpec) (a b : AgentTaskStatus) : Prop where
  phase : b.phase = a.phase ∨ PhaseMove a.phase b.phase
  retry : b.retryCount =
    if a.phase = .failed ∧ b.phase = .pending then a.retryCount + 1 else a.retryCount
  limit : a.phase = .failed → b.phase = .pending → a.retryCount < maxRetries spec
  url : a.pullRequestURL ≠ "" → b.pullRequestURL ≠ ""

def RetryBound (spec : AgentTaskSpec) : Int := max 0 (maxRetries spec)

/-- Merged, Closed, or Failed with the retries used up. -/
def Final (spec : AgentTaskSpec) (s : AgentTaskStatus) : Prop :=
  s.phase = .merged ∨ s.phase = .closed ∨ s.phase = .failed ∧ maxRetries spec ≤ s.retryCount

instance (spec : AgentTaskSpec) (s : AgentTaskStatus) : Decidable (Final spec s) :=
  inferInstanceAs (Decidable (_ ∨ _ ∨ _ ∧ _))

/-- Not a phase the controller has no case for. -/
def Phase.Known (p : Phase) : Prop := ∀ text, p ≠ .unknown text

theorem PhaseMove.known {p q : Phase} (h : PhaseMove p q) : q.Known := by
  intro text hq
  cases h <;> cases hq

theorem statusMove_of_running {spec : AgentTaskSpec} {a b : AgentTaskStatus}
    (ha : a.phase = .running) (hphase : b.phase ∈ [Phase.running, .waitingForPR, .completed, .failed])
    (hretry : b.retryCount = a.retryCount)
    (hurl : a.pullRequestURL ≠ "" → b.pullRequestURL ≠ "") : StatusMove spec a b := by
  refine ⟨?_, ?_, fun h => ?_, hurl⟩
  · simp only [List.mem_cons, List.not_mem_nil, or_false] at hphase
    rw [ha]
    rcases hphase with h | h | h | h
    · exact Or.inl h
    · exact Or.inr (h ▸ .report)
    · exact Or.inr (h ▸ .complete)
    · exact Or.inr (h ▸ .fail)
  · rw [hretry, ha]
    simp
  · rw [ha] at h
    cases h

theorem statusMove_of_waiting {spec : AgentTaskSpec} {a b : AgentTaskStatus}
    (ha : a.phase ∈ [Phase.completed, .waitingForPR])
    (hphase : b.phase ∈ [Phase.waitingForPR, .merged, .closed])
    (hretry : b.retryCount = a.retryCount) (hurl : b.pullRequestURL = a.pullRequestURL) :
    StatusMove spec a b := by
  simp only [List.mem_cons, List.not_mem_nil, or_false] at ha hphase
  refine ⟨?_, ?_, fun h => ?_, fun h => hurl ▸ h⟩
  · rcases ha with ha | ha
    · rw [ha]
      rcases hphase with h | h | h
      · exact Or.inr (h ▸ .track)
      · exact Or.inr (h ▸ .mergeCompleted)
      · exact Or.inr (h ▸ .closeCompleted)
    · rw [ha]
      rcases hphase with h | h | h
      · exact Or.inl h
      · exact Or.inr (h ▸ .merge)
      · exact Or.inr (h ▸ .close)
  · rcases ha with ha | ha <;> simp [hretry, ha]
  · rcases ha with ha | ha <;> simp [ha] at h

/-- Whatever a handler may write is a move of the lifecycle. -/
theorem MayWrite.statusMove {t : AgentTask} {b : AgentTaskStatus} (h : MayWrite t b)
    (hknown : t.status.phase.Known) : StatusMove t.spec t.status b := by
  unfold MayWrite at h
  split at h
  · rename_i ht
    subst h
    refine ⟨Or.inr (by rw [ht]; exact .accept), by simp [ht], fun hf => ?_, fun hurl => hurl⟩
    rw [ht] at hf
    cases hf
  · rename_i ht
    rcases h with ⟨message, rfl⟩ | ⟨time, message, rfl⟩
    · exact ⟨Or.inl rfl, by simp [ht], fun hf => by simp [ht] at hf, fun hurl => hurl⟩
    · exact ⟨Or.inr (by rw [ht]; exact .run), by simp, fun hf => by simp [ht] at hf,
        fun hurl => hurl⟩
  · rename_i ht
    rcases h with ⟨message, reason, _, rfl⟩ | ⟨time, message, rfl⟩ | ⟨status, h⟩
    · exact statusMove_of_running ht (by simp) rfl fun hurl => hurl
    · exact statusMove_of_running ht (by simp) rfl fun hurl => hurl
    · have hurl : t.status.pullRequestURL ≠ "" →
          (polledStatus status t.status).pullRequestURL ≠ "" := by
        intro hurl
        unfold polledStatus
        dsimp only
        split
        · assumption
        · exact hurl
      rcases h with rfl | ⟨time, message, rfl⟩ | ⟨message, reason, _, rfl⟩
      · exact statusMove_of_running ht (by simp [polledStatus, ht]) rfl hurl
      · exact statusMove_of_running ht (by simp) rfl hurl
      · exact statusMove_of_running ht (by simp) rfl hurl
  · rename_i ht
    rcases h with ⟨message, rfl⟩ | ⟨phase, message, prState, hphase, rfl⟩
    · exact statusMove_of_waiting (by simp [ht]) (by simp) rfl rfl
    · exact statusMove_of_waiting (by simp [ht]) hphase rfl rfl
  · rename_i ht
    rcases h with ⟨message, rfl⟩ | ⟨phase, message, prState, hphase, rfl⟩
    · exact statusMove_of_waiting (by simp [ht]) (by simp) rfl rfl
    · exact statusMove_of_waiting (by simp [ht]) hphase rfl rfl
  · rename_i ht
    rcases h with ⟨hlt, message, rfl⟩ | ⟨_, message, rfl⟩
    · exact ⟨Or.inr (by rw [ht]; exact .retry), by simp [ht], fun _ _ => hlt, fun hurl => hurl⟩
    · exact ⟨Or.inl rfl, by simp [ht], fun _ hp => by simp [ht] at hp, fun hurl => hurl⟩
  · exact h.elim
  · exact h.elim
  · rename_i text ht
    exact absurd ht (hknown text)

theorem StatusMove.known {spec : AgentTaskSpec} {a b : AgentTaskStatus}
    (h : StatusMove spec a b) (ha : a.phase.Known) : b.phase.Known := by
  rcases h.phase with hp | hp
  · rw [hp]
    exact ha
  · exact hp.known

theorem StatusMove.retry_le {spec : AgentTaskSpec} {a b : AgentTaskStatus}
    (h : StatusMove spec a b) (ha : 0 ≤ a.retryCount ∧ a.retryCount ≤ RetryBound spec) :
    0 ≤ b.retryCount ∧ b.retryCount ≤ RetryBound spec := by
  have hretry := h.retry
  split at hretry
  · rename_i hp
    have hlimit := h.limit hp.1 hp.2
    unfold RetryBound at *
    omega
  · omega

/-- A final status keeps its phase and its retries, and stays final. -/
theorem StatusMove.final {spec : AgentTaskSpec} {a b : AgentTaskStatus}
    (h : StatusMove spec a b) (ha : Final spec a) :
    Final spec b ∧ b.phase = a.phase ∧ b.retryCount = a.retryCount := by
  have hphase : b.phase = a.phase := by
    rcases h.phase with hp | hp
    · exact hp
    · rcases ha with ha | ha | ⟨ha, hmax⟩
      · rw [ha] at hp
        cases hp
      · rw [ha] at hp
        cases hp
      · rw [ha] at hp
        generalize hb : b.phase = q at hp
        cases hp
        have hlimit := h.limit ha hb
        omega
  have hretry := h.retry
  rw [if_neg] at hretry
  · refine ⟨?_, hphase, hretry⟩
    unfold Final
    rw [hphase, hretry]
    exact ha
  · rintro ⟨hf, hp⟩
    rw [hphase, hf] at hp
    cases hp

/-- What the store of a task satisfies in every state the operator reaches. -/
structure TaskInv (spec : AgentTaskSpec) (s : Versioned AgentTaskStatus) : Prop where
  first : s.versions[0]? = some .empty
  moves : s.Moves (StatusMove spec)
  close : s.Close

namespace TaskInv

variable {spec : AgentTaskSpec} {s : Versioned AgentTaskStatus}

theorem start (spec : AgentTaskSpec) : TaskInv spec (Versioned.start .empty) :=
  ⟨rfl, Versioned.moves_start _ _, Versioned.close_start _⟩

theorem known (h : TaskInv spec s) {a : AgentTaskStatus} (ha : a ∈ s.versions) :
    a.phase.Known := by
  refine h.moves.invariant (fun a => a.phase.Known) (fun a h₀ => ?_)
    (fun _ _ ha hm => hm.known ha) ha
  rw [h.first] at h₀
  cases h₀
  intro text ht
  cases ht

theorem retryCount (h : TaskInv spec s) {a : AgentTaskStatus} (ha : a ∈ s.versions) :
    0 ≤ a.retryCount ∧ a.retryCount ≤ RetryBound spec := by
  refine h.moves.invariant
    (fun a => 0 ≤ a.retryCount ∧ a.retryCount ≤ RetryBound spec) (fun a h₀ => ?_)
    (fun _ _ ha hm => hm.retry_le ha) ha
  rw [h.first] at h₀
  cases h₀
  exact ⟨Int.le_refl 0, Int.le_max_left _ _⟩

theorem final (h : TaskInv spec s) {i j : Nat} (hij : i ≤ j) {a b : AgentTaskStatus}
    (ha : s.versions[i]? = some a) (hb : s.versions[j]? = some b) (hfinal : Final spec a) :
    Final spec b ∧ b.phase = a.phase ∧ b.retryCount = a.retryCount := by
  refine h.moves.preserves
    (fun a b => Final spec a → Final spec b ∧ b.phase = a.phase ∧ b.retryCount = a.retryCount)
    (fun a ha => ⟨ha, rfl, rfl⟩) (fun a b c hab hbc ha => ?_) hij ha hb hfinal
  obtain ⟨hb, hphase, hretry⟩ := hab ha
  obtain ⟨hc, hphase', hretry'⟩ := hbc.final hb
  exact ⟨hc, hphase'.trans hphase, hretry'.trans hretry⟩

theorem retryCount_le (h : TaskInv spec s) {i j : Nat} (hij : i ≤ j) {a b : AgentTaskStatus}
    (ha : s.versions[i]? = some a) (hb : s.versions[j]? = some b) : a.retryCount ≤ b.retryCount := by
  refine h.moves.preserves (fun a b => a.retryCount ≤ b.retryCount) (fun a => Int.le_refl _)
    (fun a b c hab hbc => ?_) hij ha hb
  have hretry := hbc.retry
  split at hretry
  · omega
  · omega

/-- What is current is what was read, or the one write after it. -/
theorem current_cases (h : TaskInv spec s) {a : AgentTaskStatus}
    (ha : s.versions[s.seen]? = some a) : s.current = a ∨ StatusMove spec a s.current := by
  have hcurrent := s.current_eq_getElem?
  have hseen := (List.getElem?_eq_some_iff.mp ha).1
  have hclose := h.close
  unfold Versioned.Close at hclose
  rcases Nat.lt_or_ge s.seen s.latest with hlt | hge
  · have hnext : s.latest = s.seen + 1 := by omega
    rw [hnext] at hcurrent
    exact Or.inr (h.moves _ _ _ ha hcurrent)
  · have hsame : s.latest = s.seen := by
      unfold Versioned.latest at hge ⊢
      omega
    rw [hsame, ha] at hcurrent
    exact Or.inl (Option.some.inj hcurrent).symm

theorem retryCount_current (h : TaskInv spec s) {a : AgentTaskStatus}
    (ha : s.versions[s.seen]? = some a) (hphase : a.phase = .failed → maxRetries spec ≤ a.retryCount) :
    s.current.retryCount = a.retryCount := by
  rcases h.current_cases ha with hsame | hmove
  · rw [hsame]
  · rw [hmove.retry, if_neg]
    rintro ⟨hfailed, hpending⟩
    have hlimit := hmove.limit hfailed hpending
    have hmax := hphase hfailed
    omega

/-- While the task is read as Pending, no version of it is final: what has been
written since can only be the start of the attempt. -/
theorem not_final_of_pending (h : TaskInv spec s) {a b : AgentTaskStatus}
    (ha : s.versions[s.seen]? = some a) (hpending : a.phase = .pending) {i : Nat}
    (hb : s.versions[i]? = some b) : ¬ Final spec b := by
  intro hfinal
  have hi : i < s.versions.length := (List.getElem?_eq_some_iff.mp hb).1
  by_cases hle : i ≤ s.seen
  · have hphase := (h.final hle hb ha hfinal).2.1
    rcases hfinal with hf | hf | hf
    · rw [hpending, hf] at hphase
      cases hphase
    · rw [hpending, hf] at hphase
      cases hphase
    · rw [hpending, hf.1] at hphase
      cases hphase
  · have hclose := h.close
    unfold Versioned.Close Versioned.latest at hclose
    have hnext : i = s.seen + 1 := by omega
    rw [hnext] at hb
    have hmove := (h.moves s.seen a b ha hb).phase
    rw [hpending] at hmove
    have hphase : b.phase = .pending ∨ b.phase = .running := by
      rcases hmove with hp | hp
      · exact Or.inl hp
      · generalize b.phase = q at hp
        cases hp
        exact Or.inr rfl
    rcases hphase with hp | hp
    · simp [Final, hp] at hfinal
    · simp [Final, hp] at hfinal

theorem read (h : TaskInv spec s) {n : Nat} (hn : s.seen ≤ n) : TaskInv spec (s.read n) :=
  ⟨h.first, h.moves.read n, h.close.read hn⟩

theorem write (h : TaskInv spec s) {a b : AgentTaskStatus} (hacc : s.Accepts s.seen)
    (ha : s.current = a) (hmove : StatusMove spec a b) : TaskInv spec (s.write b) :=
  ⟨Versioned.getElem?_write h.first, h.moves.write (ha ▸ hmove),
    Versioned.Close.write hacc (Nat.le_refl _)⟩

theorem serve {task : AgentTask} (h : TaskInv task.spec s) {s' : Versioned AgentTaskStatus}
    {o : ApiOp} {r : o.Resp} {a : AgentTaskStatus} (hserve : Serve task s o r s')
    (ha : s.versions[s.seen]? = some a) (ho : MayCall true (task.version s.seen a) o) :
    TaskInv task.spec s' := by
  rcases hserve.cases ha ho with rfl | ⟨b, _, hacc, hcurrent, hwrite, rfl⟩
  · exact h
  · exact h.write hacc hcurrent (hwrite.statusMove (h.known (List.mem_of_getElem? ha)))

theorem serve_read {task : AgentTask} (h : TaskInv task.spec s) {s' : Versioned AgentTaskStatus}
    {key : NamespacedName} {r : Except ApiError AgentTask}
    (hserve : Serve task s (.getTask key) r s') : TaskInv task.spec s' := by
  rcases hserve.read with rfl | ⟨n, a, _, hserves, rfl⟩
  · exact h
  · exact h.read hserves.1

end TaskInv

section Runs

variable {W : Type} {task : AgentTask} {env : Environment ApiOp ApiOp.Resp W}
  {store : W → Versioned AgentTaskStatus}

theorem Stores.taskInv (hstore : Stores task env store) {w₀ : W}
    (h₀ : store w₀ = Versioned.start .empty) {c : Pool Unit ApiOp ApiOp.Resp Outcome W}
    (hc : Reachable env task w₀ c) : TaskInv task.spec (store c.world) := by
  refine hstore.invariant (fun w => TaskInv task.spec (store w)) ?_ ?_ ?_ ?_ hc
  · intro w w' h hd
    rw [hstore.drift hd]
    exact h
  · exact fun w r w' h hans => h.serve_read (hstore.answer hans)
  · exact fun w o r w' a h ha ho hans => h.serve (hstore.answer hans) ha ho
  · rw [h₀]
    exact TaskInv.start _

/-- A request for a pod, and how many versions the task had by then. -/
structure Creation where
  pod : Pod
  versions : Nat
  accepted : Bool

/-- A history of the requests for pods. -/
def recordCreation (store : W → Versioned AgentTaskStatus) (log : List Creation) (w : W) :
    (o : ApiOp) → o.Resp → List Creation
  | .createPod pod, .ok _ => log ++ [⟨pod, (store w).versions.length, true⟩]
  | .createPod pod, .error _ => log ++ [⟨pod, (store w).versions.length, false⟩]
  | _, _ => log

theorem recordCreation_cases (store : W → Versioned AgentTaskStatus) (log : List Creation) (w : W)
    (o : ApiOp) (r : o.Resp) : recordCreation store log w o r = log ∨
      ∃ pod accepted, o = .createPod pod ∧
        recordCreation store log w o r = log ++ [⟨pod, (store w).versions.length, accepted⟩] := by
  cases o with
  | createPod pod =>
    cases r with
    | ok _ => exact Or.inr ⟨pod, true, rfl, rfl⟩
    | error _ => exact Or.inr ⟨pod, false, rfl, rfl⟩
  | _ => exact Or.inl rfl

/-- A recorded request was for a pod of one of the attempts, at a time when no
version of the task was final. -/
structure Timely (task : AgentTask) (s : Versioned AgentTaskStatus) (entry : Creation) : Prop where
  name : ∃ retry, 0 ≤ retry ∧ retry ≤ RetryBound task.spec ∧
    entry.pod.name = workerPodName task.name retry
  before : entry.versions ≤ s.versions.length
  not_final : ∀ i a, i < entry.versions → s.versions[i]? = some a → ¬ Final task.spec a

theorem Timely.serve {s s' : Versioned AgentTaskStatus} {entry : Creation}
    (h : Timely task s entry) (hpre : s.versions <+: s'.versions) : Timely task s' entry := by
  obtain ⟨rest, hrest⟩ := hpre
  refine ⟨h.name, ?_, fun i a hi ha => h.not_final i a hi ?_⟩
  · have hlen := congrArg List.length hrest
    rw [List.length_append] at hlen
    have hbefore := h.before
    omega
  · have hbefore := h.before
    rw [← hrest, List.getElem?_append_left (by omega)] at ha
    exact ha

theorem Timely.of_createPod {s : Versioned AgentTaskStatus} (h : TaskInv task.spec s)
    {a : AgentTaskStatus} {pod : Pod} (ha : s.versions[s.seen]? = some a)
    (ho : MayCall true (task.version s.seen a) (.createPod pod)) (accepted : Bool) :
    Timely task s ⟨pod, s.versions.length, accepted⟩ := by
  obtain ⟨hpending, agent, rfl⟩ := ho
  obtain ⟨hnonneg, hle⟩ := h.retryCount (List.mem_of_getElem? ha)
  exact ⟨⟨a.retryCount, hnonneg, hle, rfl⟩, Nat.le_refl _,
    fun i b _ hb => h.not_final_of_pending ha hpending hb⟩

theorem Serve.grows {s s' : Versioned AgentTaskStatus} {a : AgentTaskStatus} {o : ApiOp}
    {r : o.Resp} (h : Serve task s o r s') (ha : s.versions[s.seen]? = some a)
    (ho : MayCall true (task.version s.seen a) o) : s.versions <+: s'.versions := by
  rcases h.cases ha ho with rfl | ⟨b, _, _, _, _, rfl⟩
  · exact List.prefix_rfl
  · exact s.prefix_write b

theorem Stores.timely (hstore : Stores task env store) {w₀ : W}
    (h₀ : store w₀ = Versioned.start .empty)
    {c : Pool Unit ApiOp ApiOp.Resp Outcome (W × List Creation)}
    (hc : Reachable (env.watched (recordCreation store)) task (w₀, []) c) :
    TaskInv task.spec (store c.world.1) ∧ ∀ entry ∈ c.world.2, Timely task (store c.world.1) entry := by
  have hwatched := hstore.watched (recordCreation store)
  refine hwatched.invariant
    (fun w => TaskInv task.spec (store w.1) ∧ ∀ entry ∈ w.2, Timely task (store w.1) entry)
    ?_ ?_ ?_ ?_ hc
  · rintro w w' h ⟨hd, hm⟩
    rw [hstore.drift hd, hm]
    exact h
  · rintro w r w' ⟨h, hlog⟩ ⟨hans, hm⟩
    refine ⟨h.serve_read (hstore.answer hans), fun entry he => ?_⟩
    rw [hm] at he
    refine (hlog entry he).serve ?_
    rcases (hstore.answer hans).read with hs | ⟨n, a, _, _, hs⟩
    · rw [hs]
    · rw [hs]
      exact List.prefix_rfl
  · rintro w o r w' a ⟨h, hlog⟩ ha ho ⟨hans, hm⟩
    have hserve := hstore.answer hans
    refine ⟨h.serve hserve ha ho, fun entry he => Timely.serve ?_ (hserve.grows ha ho)⟩
    rw [hm] at he
    rcases recordCreation_cases store w.2 w.1 o r with hr | ⟨pod, accepted, rfl, hr⟩
    · rw [hr] at he
      exact hlog entry he
    · rw [hr] at he
      rcases List.mem_append.mp he with he | he
      · exact hlog entry he
      · rw [List.mem_singleton.mp he]
        exact Timely.of_createPod h ha ho accepted
  · rw [h₀]
    exact ⟨TaskInv.start _, fun entry he => by cases he⟩

theorem card_podNames_le {s : Versioned AgentTaskStatus} {log : List Creation}
    (h : ∀ entry ∈ log, Timely task s entry) :
    (log.map fun entry => entry.pod.name).toFinset.card ≤ (RetryBound task.spec).toNat + 1 := by
  have hsub : (log.map fun entry => entry.pod.name).toFinset ⊆
      (Finset.Icc 0 (RetryBound task.spec)).image (workerPodName task.name) := by
    intro name hname
    obtain ⟨entry, he, rfl⟩ := List.mem_map.mp (List.mem_toFinset.mp hname)
    obtain ⟨retry, hnonneg, hle, heq⟩ := (h entry he).name
    exact Finset.mem_image.mpr ⟨retry, Finset.mem_Icc.mpr ⟨hnonneg, hle⟩, heq.symm⟩
  have hbound : 0 ≤ RetryBound task.spec := Int.le_max_left _ _
  calc (log.map fun entry => entry.pod.name).toFinset.card
      ≤ ((Finset.Icc 0 (RetryBound task.spec)).image (workerPodName task.name)).card :=
        Finset.card_le_card hsub
    _ ≤ (Finset.Icc 0 (RetryBound task.spec)).card := Finset.card_image_le
    _ = (RetryBound task.spec).toNat + 1 := by
        rw [Int.card_Icc]
        omega

/-- The lifecycle of a task, over every run: each persisted change is a move of
the lifecycle, the retries stay within their bound, there are at most as many
pods as attempts, and a final task keeps its phase and gets no pod any more. -/
theorem Stores.lifecycle (hstore : Stores task env store) {w₀ : W}
    (h₀ : store w₀ = Versioned.start .empty)
    {c : Pool Unit ApiOp ApiOp.Resp Outcome (W × List Creation)}
    (hc : Reachable (env.watched (recordCreation store)) task (w₀, []) c) :
    (store c.world.1).Moves (StatusMove task.spec) ∧
    (∀ a ∈ (store c.world.1).versions, a.retryCount ≤ RetryBound task.spec) ∧
    (c.world.2.map fun entry => entry.pod.name).toFinset.card ≤
      (RetryBound task.spec).toNat + 1 ∧
    (((c.world.2.filter Creation.accepted).map fun entry => entry.pod.name).Nodup →
      (c.world.2.filter Creation.accepted).length ≤ (RetryBound task.spec).toNat + 1) ∧
    (∀ (i j : Nat) (a b : AgentTaskStatus), i ≤ j → (store c.world.1).versions[i]? = some a →
      (store c.world.1).versions[j]? = some b → Final task.spec a →
      b.phase = a.phase ∧ b.retryCount = a.retryCount) ∧
    ∀ entry ∈ c.world.2, ∀ (i : Nat) (a : AgentTaskStatus), i < entry.versions →
      (store c.world.1).versions[i]? = some a → ¬ Final task.spec a := by
  obtain ⟨hinv, hlog⟩ := hstore.timely h₀ hc
  refine ⟨hinv.moves, fun a ha => (hinv.retryCount ha).2, card_podNames_le hlog, ?_, ?_, ?_⟩
  · intro hnodup
    have haccepted : ∀ entry ∈ c.world.2.filter Creation.accepted,
        Timely task (store c.world.1) entry := by
      intro entry he
      exact hlog entry (List.mem_of_mem_filter he)
    have hcard := card_podNames_le haccepted
    rw [List.toFinset_card_of_nodup hnodup, List.length_map] at hcard
    exact hcard
  · intro i j a b hij ha hb hfinal
    exact (hinv.final hij ha hb hfinal).2
  · intro entry he
    exact (hlog entry he).not_final

/-- A task whose worker has finished. -/
theorem lifecycle_demo :
    let w := Pool.plays
      ((List.replicate 3 (demoCluster false)).map fun b =>
        watching (b.respond demoTask) (recordCreation id))
      (reconcile demoTask.key) (Versioned.start .empty, [])
    w.1.current.phase = .waitingForPR ∧ w.2.length = 1 ∧
      (w.2.map fun entry => entry.pod.name).toFinset.card ≤ 3 := by
  refine ⟨by decide, by decide, ?_⟩
  exact (Stores.lifecycle (stores_apiServer demoTask) rfl
    (reachable_behaviours demoTask (recordCreation id) [] _)).2.2.1

end Runs

end BulletFarm.Operator
