import BulletFarm.Interaction.Descent
import BulletFarm.Operator.Phases

/-!
# How often a task changes its phase

A task changes its phase no more often than the retries that are left to it allow, whatever
fails and however often it is reconciled.
-/

namespace BulletFarm.Operator

open Interaction

set_option autoImplicit false

def retriesLeft (spec : AgentTaskSpec) (s : AgentTaskStatus) : Nat :=
  (RetryBound spec - s.retryCount).toNat

/-- How often the task can still change its phase. -/
def changesLeft (spec : AgentTaskSpec) (s : AgentTaskStatus) : Nat :=
  match s.phase with
  | .unset => 3 * retriesLeft spec s + 5
  | .pending => 3 * retriesLeft spec s + 4
  | .running => 3 * retriesLeft spec s + 3
  | .failed => 3 * retriesLeft spec s + 2
  | .completed => 2
  | .waitingForPR => 1
  | .merged | .closed | .unknown _ => 0

/-- How many attempts the task can still begin. -/
def attemptsLeft (spec : AgentTaskSpec) (s : AgentTaskStatus) : Nat :=
  match s.phase with
  | .unset | .pending => retriesLeft spec s + 1
  | .running | .failed => retriesLeft spec s
  | _ => 0

def phaseChange (a b : AgentTaskStatus) : Nat := if a.phase = b.phase then 0 else 1

def attemptBegun (a b : AgentTaskStatus) : Nat :=
  if a.phase ≠ .running ∧ b.phase = .running then 1 else 0

namespace StatusMove
variable {spec : AgentTaskSpec} {a b : AgentTaskStatus}

theorem retriesLeft_eq (h : StatusMove spec a b) (hretry : ¬ (a.phase = .failed ∧ b.phase = .pending)) :
    retriesLeft spec b = retriesLeft spec a := by
  have hcount := h.retry
  rw [if_neg hretry] at hcount
  unfold retriesLeft
  rw [hcount]

theorem retriesLeft_lt (h : StatusMove spec a b) (ha : a.phase = .failed) (hb : b.phase = .pending) :
    retriesLeft spec b + 1 = retriesLeft spec a := by
  have hcount := h.retry
  rw [if_pos ⟨ha, hb⟩] at hcount
  have hlimit := h.limit ha hb
  have hbound : maxRetries spec ≤ RetryBound spec := Int.le_max_right _ _
  unfold retriesLeft
  omega

/-- A move of the lifecycle uses up what it takes. -/
theorem pays (h : StatusMove spec a b) :
    phaseChange a b + changesLeft spec b ≤ changesLeft spec a ∧
      attemptBegun a b + attemptsLeft spec b ≤ attemptsLeft spec a := by
  rcases h.phase with hsame | hmove
  · have hleft := h.retriesLeft_eq fun ⟨ha, hb⟩ => by
      rw [hsame, ha] at hb
      cases hb
    unfold phaseChange changesLeft attemptBegun attemptsLeft
    rw [hsame, hleft]
    simp
  · have hleft : a.phase ≠ .failed → retriesLeft spec b = retriesLeft spec a :=
      fun ha => h.retriesLeft_eq fun hretry => ha hretry.1
    have hless := h.retriesLeft_lt
    generalize ha : a.phase = p at hmove hleft hless
    generalize hb : b.phase = q at hmove hless
    unfold phaseChange changesLeft attemptBegun attemptsLeft
    rw [ha, hb]
    cases hmove with
    | retry =>
      have hone := hless rfl rfl
      constructor
      · simp only [reduceCtorEq, if_false]
        omega
      · simp only [reduceCtorEq, and_false, if_false]
        omega
    | run =>
      have hsame := hleft nofun
      constructor
      · simp only [reduceCtorEq, if_false]
        omega
      · rw [if_pos ⟨nofun, rfl⟩, hsame]
        exact Nat.le_of_eq (Nat.add_comm 1 _)
    | _ =>
      have hsame := hleft nofun
      constructor
      · simp only [reduceCtorEq, if_false]
        omega
      · simp [hsame]

end StatusMove

/-- After an attempt has begun, only the next one is pending. -/
theorem TaskInv.pending_after {spec : AgentTaskSpec} {s : Versioned AgentTaskStatus}
    (h : TaskInv spec s) {i j : Nat} (hij : i ≤ j) {a b : AgentTaskStatus}
    (ha : s.versions[i]? = some a) (hb : s.versions[j]? = some b)
    (hbegun : a.phase ∉ [Phase.unset, .pending]) (hpending : b.phase = .pending) :
    a.retryCount < b.retryCount := by
  have hkeeps := h.moves.preserves (fun a b => a.phase ∉ [Phase.unset, .pending] →
      a.retryCount < b.retryCount ∨ a.retryCount = b.retryCount ∧ b.phase ∉ [Phase.unset, .pending])
    (fun a ha => Or.inr ⟨rfl, ha⟩) ?_ hij ha hb hbegun
  · exact hkeeps.resolve_right fun hsame => hsame.2 (by simp [hpending])
  · intro a b c hab hbc ha
    have hcount := hbc.retry
    rcases hab ha with hlt | ⟨heq, hb⟩
    · left
      split at hcount <;> omega
    · by_cases hretry : b.phase = .failed ∧ c.phase = .pending
      · rw [if_pos hretry] at hcount
        omega
      · rw [if_neg hretry] at hcount
        refine Or.inr ⟨heq.trans hcount.symm, ?_⟩
        rcases hbc.phase with hsame | hmove
        · rwa [hsame]
        · generalize b.phase = p at hb hretry hmove
          generalize c.phase = q at hretry hmove ⊢
          cases hmove <;> simp at hb hretry ⊢

section Runs
variable {W : Type} {task : AgentTask} {env : Environment ApiOp ApiOp.Resp W}
  {store : W → Versioned AgentTaskStatus}

/-- A task changes its phase at most three times for each retry and five times more, and begins
one attempt more than it has retries. -/
theorem Stores.phases_bounded (hstore : Stores task env store) {w₀ : W}
    (h₀ : store w₀ = Versioned.start .empty) {c : Pool Unit ApiOp ApiOp.Resp Outcome W}
    (hc : Reachable env task w₀ c) :
    totalCost phaseChange (store c.world).versions ≤ 3 * (RetryBound task.spec).toNat + 5 ∧
      totalCost attemptBegun (store c.world).versions ≤ (RetryBound task.spec).toNat + 1 := by
  have hinv := hstore.taskInv h₀ hc
  have hfirst : retriesLeft task.spec .empty = (RetryBound task.spec).toNat := by
    unfold retriesLeft AgentTaskStatus.empty
    rw [Int.sub_zero]
  have hchanges := hinv.moves.totalCost_le (fun a _ b _ hmove => hmove.pays.1) hinv.first
  have hattempts := hinv.moves.totalCost_le (fun a _ b _ hmove => hmove.pays.2) hinv.first
  rw [← hfirst]
  exact ⟨hchanges, hattempts⟩

end Runs

def demoBehaviour (podPhase : PodPhase) (phase : String) (merged : Bool) : Behaviour where
  agent := .ok demoAgent
  pod _ := .ok (demoPod podPhase)
  created _ := .ok ()
  reply url :=
    match url.endpoint with
    | .status => demoReply [("phase", .str phase), ("pull_request_url", .str "url")]
    | _ => demoReply [("state", .str "open"), ("merged", .bool merged)]
  writes := true

/-- Two attempts fail with their pod, the third one ends with it, and the pull request is merged. -/
def longestRun : List Behaviour :=
  let failing := [demoBehaviour .running "" false, demoBehaviour .failed "" false,
    demoBehaviour .running "" false]
  [demoBehaviour .running "" false] ++ failing ++ failing ++ [demoBehaviour .running "" false,
    demoBehaviour .running "Running" false, demoBehaviour .succeeded "" false,
    demoBehaviour .running "" false, demoBehaviour .running "" true]

theorem phases_bounded_demo :
    let s := Pool.plays (longestRun.map fun b => b.respond demoTask) (reconcile demoTask.key)
      (Versioned.start .empty)
    totalCost phaseChange s.versions ≤ 3 * (RetryBound demoTask.spec).toNat + 5 ∧
      totalCost phaseChange s.versions = 11 ∧ s.current.phase = .merged := by
  refine ⟨?_, by decide +kernel, by decide +kernel⟩
  exact (Stores.phases_bounded (stores_apiServer demoTask) rfl
    (reachable_plays demoTask longestRun)).1

end BulletFarm.Operator
