import BulletFarm.Order.Firsts
import BulletFarm.Worker.Registry
import BulletFarm.Worker.Startup

/-!
# The tools of a task

The operator drops a name of a skill that it has seen, the worker looks each name up. Several
names stand for one tool.
-/

namespace BulletFarm.System

open Interaction Operator Firsts
open Worker (TaskRequest TaskStatus RunState WorkerOp coreTools skillRegistry workspaceTools runTask
  runAgent runAttempt requestOf startupRequest startupRequest_podFor)
open Python (Exc)

set_option autoImplicit false

/-! ## The merged skills -/

theorem mergeSkill_firsts (xs before : List String) (acc : List String × Go.Slice String)
    (hseen : ∀ x, x ∈ acc.1 ↔ x ∈ before) (hacc : acc.2.items = before.eraseDups) :
    (∀ x, x ∈ (xs.foldl mergeSkill acc).1 ↔ x ∈ before ++ xs) ∧
      (xs.foldl mergeSkill acc).2.items = (before ++ xs).eraseDups := by
  induction xs generalizing before acc with
  | nil => simpa using ⟨hseen, hacc⟩
  | cons x xs ih =>
    have happend : before ++ x :: xs = (before ++ [x]) ++ xs := by simp
    rw [List.foldl_cons, happend]
    apply ih
    · intro y
      rw [mergeSkill, List.mem_append, List.mem_singleton, ← hseen y]
      split
      · next hx => exact ⟨Or.inl, fun h => h.elim id fun hyx => hyx ▸ hx⟩
      · rw [List.mem_cons, or_comm]
    · rw [mergeSkill, eraseDups_concat]
      by_cases hx : x ∈ before
      · rw [if_pos ((hseen x).mpr hx), if_pos hx, hacc]
      · rw [if_neg (mt (hseen x).mp hx), if_neg hx, ← hacc]
        rfl

/-- Each name where it is first requested. -/
theorem mergeSkills_items (defaults skills : Go.Slice String) :
    (mergeSkills defaults skills).items = (defaults.items ++ skills.items).eraseDups := by
  obtain ⟨hseen, hacc⟩ := mergeSkill_firsts defaults.items [] ([], none) (fun _ => Iff.rfl) rfl
  exact (mergeSkill_firsts skills.items _ _ hseen hacc).2

/-- The names of skills that are requested for a task, the agent's before its own. -/
def requested (agent : Agent) (task : AgentTask) : List String :=
  agent.spec.defaultSkills.items ++ task.spec.skills.items

theorem startupRequest_skills {task : AgentTask} {agent : Agent} {request : TaskRequest}
    (h : startupRequest (podFor task agent) = some request) :
    request.skills = (requested agent task).eraseDups := by
  rw [startupRequest_podFor] at h
  obtain ⟨_, _, rfl⟩ := Option.map_eq_some_iff.mp h
  exact mergeSkills_items _ _

/-! ## The tools of a run -/

/-- The tools a call passes to the agent. -/
def passedTools : WorkerOp → Option (List String)
  | .streamEvents _ tools => some tools
  | .invoke _ tools => some tools
  | _ => none

/-- The tools it passes, if any, are the tools of the request. -/
def Passes (request : TaskRequest) (o : WorkerOp) : Prop :=
  ∀ tools, passedTools o = some tools → tools = workspaceTools request

section Run
variable {request : TaskRequest}

theorem Passes.apart {kind : WorkerOp → Prop} {o : WorkerOp} (h : kind o)
    (hstream : ∀ prompt tools, ¬ kind (.streamEvents prompt tools))
    (hinvoke : ∀ prompt tools, ¬ kind (.invoke prompt tools)) : Passes request o := by
  intro tools htools
  cases o with
  | streamEvents prompt tools => exact absurd h (hstream prompt tools)
  | invoke prompt tools => exact absurd h (hinvoke prompt tools)
  | _ => cases htools

theorem admits_passes : Worker.Admits request (Passes request) where
  prepares h _ := Passes.apart h (fun _ _ => id) fun _ _ => id
  onGitHub h := Passes.apart h (fun _ _ => id) fun _ _ => id
  stores h := Passes.apart h (fun _ _ => id) fun _ _ => id
  now tools h := by cases h

theorem runAttempt_passes (prompt : String) :
    Effect.Calls (Passes request) (runAttempt request prompt) := by
  have hcomposes : Effect.Composes fun (_ : RunState) (tr : List (Event WorkerOp.Resp))
      (_ : RunState) => ∀ e ∈ tr, Passes request e.1 := Effect.Calls.composes _
  have hstream : Passes request (.streamEvents prompt (workspaceTools request)) :=
    fun tools h => (Option.some.inj h).symm
  have hinvoke : Passes request (.invoke prompt (workspaceTools request)) :=
    fun tools h => (Option.some.inj h).symm
  have hresult : ∀ e ∈ ([] : List (Event WorkerOp.Resp)), Passes request e.1 := by
    intro e he
    cases he
  apply Effect.Moves.bind hcomposes (Worker.Makes.ask hstream).calls
  intro stream
  apply Effect.Moves.bind hcomposes
  · apply Worker.handleEvents_moves hcomposes
    · exact fun _ _ => hresult
    · exact fun _ => Worker.addTaskMemory_calls admits_passes.now _
    · exact (Worker.flush_makes.mono fun _ => admits_passes.stores).calls
  intro _
  split
  · exact Effect.Moves.throw hcomposes _
  · apply Effect.Moves.bind hcomposes (Effect.Moves.get hcomposes)
    intro s
    apply Effect.Moves.ite _ fun _ => Effect.Moves.pure hcomposes ()
    intro _
    apply Effect.Moves.bind hcomposes (Worker.Makes.attempt hinvoke _).calls
    exact fun messages => Effect.Moves.modify fun _ => hresult

theorem runAgent_passes {notify : Bool} (prompt : String) (remaining : Nat) :
    Effect.Calls (Passes request) (runAgent notify request prompt remaining) := by
  apply Worker.runAgent_attempts (Effect.Calls.composes (Passes request))
  · intro s result e he
    cases he
  · exact runAttempt_passes prompt
  · exact fun hm => (hm.mono fun _ h => Passes.apart h.1 (fun _ _ => id) fun _ _ => id).calls

theorem runTask_passes {githubToken : String} {notify : Bool} {tr : List (Event WorkerOp.Resp)}
    {r : Except Exc TaskStatus} {s' : RunState}
    (h : (runTask githubToken notify request).Runs tr (r, s')) : ∀ e ∈ tr, Passes request e.1 :=
  Worker.runTask_calls admits_passes runAgent_passes h

end Run

/-! ## The tools that were asked for -/

/-- The tools of the names that are recognised, at every request. -/
def askedTools (skills : List String) : List String := skills.filterMap skillRegistry

/-- The tools are the core tools and the tools of the recognised names, each once, in the order
in which they are first asked for. -/
structure AsRequested (skills tools : List String) : Prop where
  distinct : tools.Nodup
  core : coreTools ⊆ tools
  recognised : ∀ skill ∈ skills, ∀ tool, skillRegistry skill = some tool → tool ∈ tools
  ordered : (tools.filter (· ∉ coreTools)).Pairwise fun a b =>
    (askedTools skills).idxOf a ≤ (askedTools skills).idxOf b
  nothingElse : ∀ tool ∈ tools, tool ∈ coreTools ∨ tool ∈ askedTools skills

theorem skillRegistry_ne_core {skill tool : String} (h : skillRegistry skill = some tool) :
    tool ∉ coreTools := by
  unfold skillRegistry at h
  split at h <;> cases h <;> decide

theorem askedTools_ne_core {skills : List String} {tool : String} (h : tool ∈ askedTools skills) :
    tool ∉ coreTools := by
  obtain ⟨_, _, hskill⟩ := List.mem_filterMap.mp h
  exact skillRegistry_ne_core hskill

/-- All of it holds exactly if no two of the names stand for one tool. -/
theorem asRequested_iff (skills : List String) :
    AsRequested skills (coreTools ++ askedTools skills.eraseDups) ↔
      InjectiveOn skillRegistry skills := by
  have hnames : InjectiveOn skillRegistry skills.eraseDups ↔ InjectiveOn skillRegistry skills := by
    simp [InjectiveOn]
  constructor
  · intro h
    apply hnames.mp
    exact (nodup_filterMap_iff (nodup_eraseDups skills)).mp (List.nodup_append.mp h.distinct).2.1
  · intro h
    have hasked : askedTools skills.eraseDups = (askedTools skills).eraseDups :=
      (eraseDups_filterMap h).symm
    rw [hasked]
    refine ⟨?_, List.subset_append_left _ _, ?_, ?_, ?_⟩
    · refine List.nodup_append.mpr ⟨by decide, nodup_eraseDups _, ?_⟩
      rintro tool hcore _ hin rfl
      exact askedTools_ne_core (List.mem_eraseDups.mp hin) hcore
    · intro skill hin tool hskill
      apply List.mem_append_right
      exact List.mem_eraseDups.mpr (List.mem_filterMap.mpr ⟨skill, hin, hskill⟩)
    · have hrest : (coreTools ++ (askedTools skills).eraseDups).filter (· ∉ coreTools) =
          (askedTools skills).eraseDups := by
        rw [List.filter_append, List.filter_eq_nil_iff.mpr, List.nil_append, List.filter_eq_self]
        · intro tool hin
          exact decide_eq_true (askedTools_ne_core (List.mem_eraseDups.mp hin))
        · intro tool hin
          simpa using hin
      rw [hrest]
      exact (pairwise_eraseDups _).imp Nat.le_of_lt
    · intro tool hin
      exact (List.mem_append.mp hin).imp_right List.mem_eraseDups.mp

/-- What the agent of a started run is passed is as the task and its agent request it, exactly
if no two of their names stand for one tool. -/
theorem tools_as_requested_iff {githubToken : String} {notify : Bool} {task : AgentTask}
    {agent : Agent} {request : TaskRequest} {tr : List (Event WorkerOp.Resp)}
    {r : Except Exc TaskStatus} {s' : RunState} {e : Event WorkerOp.Resp} {tools : List String}
    (hstart : startupRequest (podFor task agent) = some request)
    (hrun : (runTask githubToken notify request).Runs tr (r, s')) (he : e ∈ tr)
    (hpassed : passedTools e.1 = some tools) :
    AsRequested (requested agent task) tools ↔
      InjectiveOn skillRegistry (requested agent task) := by
  rw [runTask_passes hrun e he tools hpassed, workspaceTools, startupRequest_skills hstart]
  exact asRequested_iff _

/-! ## Two tasks -/

/-- A task that requests these skills. -/
def askingTask (skills : List String) : AgentTask :=
  { demoTask with spec := { demoTask.spec with skills := some skills } }

/-- The run of its worker, with nothing that fails. -/
def askingRun (skills : List String) :
    List (Event WorkerOp.Resp) × (Except Exc TaskStatus × RunState) × Unit :=
  play (fun w o => (Worker.demoAnswers 0 o, w))
    (runTask "token" false (requestOf (taskPayload (askingTask skills) demoAgent))) ()

theorem askingTask_starts (skill : String) (skills : List String) :
    startupRequest (podFor (askingTask (skill :: skills)) demoAgent) =
      some (requestOf (taskPayload (askingTask (skill :: skills)) demoAgent)) :=
  (Worker.payload_accepted_iff _ _).mpr (Or.inr (List.cons_ne_nil _ _))

theorem tools_as_requested_demo : ∃ e ∈ (askingRun ["testing", "doc-update"]).1, ∃ tools,
    passedTools e.1 = some tools ∧
      (AsRequested (requested demoAgent (askingTask ["testing", "doc-update"])) tools ↔
        InjectiveOn skillRegistry (requested demoAgent (askingTask ["testing", "doc-update"]))) := by
  have hpassed : (askingRun ["testing", "doc-update"]).1.any
      (fun e => (passedTools e.1).isSome) = true := by decide +kernel
  obtain ⟨e, he, hsome⟩ := List.any_eq_true.mp hpassed
  obtain ⟨tools, htools⟩ := Option.isSome_iff_exists.mp hsome
  exact ⟨e, he, tools, htools,
    tools_as_requested_iff (askingTask_starts _ _) (runs_play _ _ _) he htools⟩

/-- Both names stand for the generator of tests. -/
theorem tool_passed_twice : ∃ task agent request tr r s' e tools,
    startupRequest (podFor task agent) = some request ∧
      (runTask "token" false request).Runs tr (r, s') ∧ e ∈ tr ∧ passedTools e.1 = some tools ∧
        ¬ AsRequested (requested agent task) tools := by
  have hpassed : (askingRun ["testing", "test-generator"]).1.any (fun e =>
      passedTools e.1 == some (coreTools ++ ["test_generator", "test_generator"])) = true := by
    decide +kernel
  obtain ⟨e, he, hsome⟩ := List.any_eq_true.mp hpassed
  refine ⟨askingTask ["testing", "test-generator"], demoAgent, _, _, _, _, e, _,
    askingTask_starts _ _, runs_play _ _ (), he, eq_of_beq hsome, fun h => ?_⟩
  exact absurd h.distinct (by decide)

end BulletFarm.System
