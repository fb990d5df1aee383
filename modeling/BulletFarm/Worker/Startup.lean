import BulletFarm.Json.Text
import BulletFarm.Operator.TaskRun
import BulletFarm.Worker.Types

/-!
# From the operator's payload to the worker's request

`lifespan` reads TASK_PAYLOAD and validates it as a `TaskRequest`; whatever goes
wrong there is only logged. Reading undoes what `json.Marshal` writes, so the two
sides agree on every payload but one whose list of skills is nil.
-/

namespace BulletFarm.Worker

open Python

set_option autoImplicit false

/-! ## Validation -/

def validStr : Json.Value → Option String := Json.Value.asString

def validList : Json.Value → Option (List String)
  | .arr items => items.mapM validStr
  | _ => none

/-- The number `m / d` that a literal writes, without its sign; none for NaN and the infinities. -/
def magnitude (literal : String) : Option (Nat × Nat) := do
  let cs := literal.toList.dropWhile (· = '-')
  let whole := cs.takeWhile Char.isDigit
  let cs := cs.dropWhile Char.isDigit
  let fraction := if cs.head? = some '.' then cs.tail.takeWhile Char.isDigit else []
  let exponent := (cs.dropWhile fun c => c ≠ 'e' ∧ c ≠ 'E').tail.filter (· ≠ '+')
  let m ← (String.ofList (whole ++ fraction)).toNat?
  let e := (String.ofList exponent).toInt?.getD 0 - fraction.length
  pure (m * 10 ^ e.toNat, 10 ^ (-e).toNat)

/-- Besides booleans, 0 and 1 and some strings pass for a boolean. A literal is 0 or 1 once it is
rounded to a float. -/
def validBool : Json.Value → Option Bool
  | .bool b => some b
  | .num literal =>
    match magnitude literal with
    | some (m, d) =>
      if m * 2 ^ 1075 ≤ d then some false
      else if literal.toList.head? ≠ some '-' ∧ (2 ^ 54 - 1) * d ≤ 2 ^ 54 * m ∧
          2 ^ 53 * m ≤ (2 ^ 53 + 1) * d then some true
      else none
    | none => none
  | .str s =>
    if lower s ∈ ["1", "on", "t", "true", "y", "yes"] then some true
    else if lower s ∈ ["0", "off", "f", "false", "n", "no"] then some false
    else none
  | _ => none

/-- `payload[key]`, which only a dictionary with the key has. -/
def item (payload : Json.Value) (key : String) : Option Json.Value :=
  match payload with
  | .obj members => Json.Value.lookup key members
  | _ => none

def getItem (payload : Json.Value) (key : String) (default : Json.Value) : Json.Value :=
  (item payload key).getD default

/-- The request `lifespan` makes of TASK_PAYLOAD; no request where it logs an exception. -/
def payloadRequest (taskPayload : String) : Option TaskRequest := do
  let payload ← Json.loads taskPayload
  let taskID ← item payload "task_id"
  let agentRef ← item payload "agent_ref"
  let repository ← item payload "repository"
  pure {
    taskID := ← validStr taskID
    agentRef := ← validStr agentRef
    repository := ← validStr repository
    prompt := ← validStr (getItem payload "prompt" (getItem payload "description" (.str "")))
    targetBranch := ← validStr (getItem payload "target_branch" (.str "agent-changes"))
    skills := ← validList (getItem payload "skills" (.arr []))
    isRetry := ← validBool (getItem payload "is_retry" (.bool false))
    prURL := ← validStr (getItem payload "pr_url" (.str "")) }

open Operator in
/-- The request a worker starts with, from the environment of its pod. -/
def startupRequest (pod : Pod) : Option TaskRequest :=
  match pod.env.find? fun v => v.name = "TASK_PAYLOAD" with
  | some ⟨_, .value text⟩ => if text = "" then none else payloadRequest text
  | _ => none

/-! ## Agreement -/

open Operator in
/-- The request that says what the payload says. -/
def requestOf (p : TaskPayload) : TaskRequest where
  taskID := p.taskID
  agentRef := p.agentRef
  repository := p.repository
  prompt := p.prompt
  targetBranch := p.targetBranch
  skills := p.skills.items
  isRetry := p.isRetry
  prURL := p.prURL

section Agreement
open Operator

theorem mapM_validStr (xs : List String) : (xs.map Json.Value.str).mapM validStr = some xs := by
  induction xs with
  | nil => rfl
  | cons x xs ih =>
    rw [List.map_cons, List.mapM_cons, ih]
    rfl

theorem wellFormed_marshalStrings (xs : Go.Slice String) : (Go.marshalStrings xs).WellFormed := by
  cases xs with
  | none => exact .null
  | some xs =>
    apply Json.Value.WellFormed.arr
    intro v hv
    obtain ⟨s, _, rfl⟩ := List.mem_map.mp hv
    exact .str s

theorem payload_wellFormed (p : TaskPayload) : p.toJson.WellFormed := by
  apply Json.Value.WellFormed.obj
  intro m hm
  simp only [List.mem_cons, List.not_mem_nil, or_false] at hm
  rcases hm with rfl | rfl | rfl | rfl | rfl | rfl | rfl | rfl | rfl
  · exact .str _
  · exact .str _
  · exact .str _
  · exact .str _
  · exact .str _
  · exact .str _
  · exact wellFormed_marshalStrings _
  · exact .bool _
  · exact .str _

/-- The worker reads what the operator wrote, and rejects a nil list. -/
theorem payloadRequest_marshal (p : TaskPayload) :
    payloadRequest (Go.marshal p.toJson) = p.skills.map fun _ => requestOf p := by
  unfold payloadRequest
  rw [Go.marshal, Json.loads_render Go.jsonEscape_undone (payload_wellFormed p)]
  have hlist : validList (Go.marshalStrings p.skills) = p.skills := by
    cases p.skills with
    | none => rfl
    | some xs => exact mapM_validStr xs
  simp only [TaskPayload.toJson, item, getItem, Json.Value.lookup, Option.bind_eq_bind,
    Option.bind_some]
  cases hskills : p.skills with
  | none =>
    rw [hskills] at hlist
    simp [hlist, validStr, Json.Value.asString]
  | some xs =>
    rw [hskills] at hlist
    simp [hlist, hskills, validStr, validBool, Json.Value.asString, requestOf]

/-! Folding in names gives a nil list only if there are none. -/

theorem mergeSkill_fold (xs : List String) (acc : List String × Go.Slice String)
    (hacc : acc.2 = none ↔ acc.1 = []) :
    ((xs.foldl mergeSkill acc).2 = none ↔ (xs.foldl mergeSkill acc).1 = []) ∧
      ((xs.foldl mergeSkill acc).2 = none ↔ acc.2 = none ∧ xs = []) := by
  induction xs generalizing acc with
  | nil => simp [hacc]
  | cons x xs ih =>
    have hstep : (mergeSkill acc x).2 = none ↔ (mergeSkill acc x).1 = [] := by
      unfold mergeSkill
      split
      · exact hacc
      · simp [Go.Slice.append]
    have hsome : (mergeSkill acc x).2 ≠ none := by
      unfold mergeSkill
      split
      · rename_i hx
        intro hnone
        rw [hacc.mp hnone] at hx
        cases hx
      · simp [Go.Slice.append]
    obtain ⟨h₁, h₂⟩ := ih (mergeSkill acc x) hstep
    refine ⟨h₁, ?_⟩
    rw [List.foldl_cons, h₂]
    constructor
    · exact fun h => absurd h.1 hsome
    · rintro ⟨_, hnil⟩
      cases hnil

theorem mergeSkills_eq_none (defaults skills : Go.Slice String) :
    mergeSkills defaults skills = none ↔ defaults.items = [] ∧ skills.items = [] := by
  obtain ⟨h₁, h₂⟩ := mergeSkill_fold defaults.items ([], none) (by simp)
  unfold mergeSkills
  rw [(mergeSkill_fold skills.items _ h₁).2, h₂]
  simp

/-- The worker of a pod starts with what the payload of the pod says, if it can read it. -/
theorem startupRequest_podFor (task : AgentTask) (agent : Agent) :
    startupRequest (podFor task agent) =
      (taskPayload task agent).skills.map fun _ => requestOf (taskPayload task agent) := by
  rw [← payloadRequest_marshal]
  change (if Go.marshal (taskPayload task agent).toJson = "" then none else _) = _
  split
  · rename_i hempty
    rw [hempty]
    rfl
  · rfl

/-- The worker starts with the request the payload stands for, unless neither the
agent nor the task names a skill. -/
theorem payload_accepted_iff (task : AgentTask) (agent : Agent) :
    startupRequest (podFor task agent) = some (requestOf (taskPayload task agent)) ↔
      agent.spec.defaultSkills.items ≠ [] ∨ task.spec.skills.items ≠ [] := by
  rw [startupRequest_podFor]
  have hskills : (taskPayload task agent).skills = none ↔
      agent.spec.defaultSkills.items = [] ∧ task.spec.skills.items = [] :=
    mergeSkills_eq_none _ _
  cases h : (taskPayload task agent).skills with
  | none =>
    obtain ⟨hdefaults, hnames⟩ := hskills.mp h
    simp [hdefaults, hnames]
  | some xs =>
    constructor
    · intro _
      by_contra hnone
      push Not at hnone
      rw [hskills.mpr hnone] at h
      cases h
    · exact fun _ => rfl

/-- The small task is to start. -/
def demoPending : AgentTask := demoTask.withStatus fun s => { s with phase := .pending }

/-- Neither it nor its agent names a skill: its worker starts with nothing to do. -/
theorem demo_payload_rejected : startupRequest (podFor demoPending demoAgent) = none := by
  rw [startupRequest_podFor]
  rfl

end Agreement

end BulletFarm.Worker
