import BulletFarm.Interaction.Clients
import BulletFarm.Interaction.View
import BulletFarm.Operator.AgentController
import BulletFarm.Operator.Census

/-!
# The status of an Agent as a view of the tasks

Any number of Reconciles of Agents and of tasks go on at once. They list the tasks from a
cache that lags behind the API server, and the API server refuses the status of an Agent
that was not read in its current version.
-/

namespace BulletFarm.Operator

open Interaction Program

set_option autoImplicit false

def Agent.key (agent : Agent) : NamespacedName := ⟨agent.name, agent.ns⟩

/-- All tasks at one moment. -/
structure Roster where
  tasks : List AgentTask
  distinct : (tasks.map AgentTask.key).Nodup
deriving DecidableEq

namespace Roster

def census (r : Roster) : Census := ⟨r.tasks, fun _ => none, r.distinct⟩

/-- The task of the name is the Agent's, and runs or is to run. -/
def Counts (r : Roster) (key : NamespacedName) (name : String) : Prop := r.census.Counts key name

def setTask (r : Roster) (key : NamespacedName) (s : AgentTaskStatus) : Roster :=
  ⟨(r.census.setTask key s).tasks, (r.census.setTask key s).distinct⟩

end Roster

/-- What a Reconcile holds of what it has read: the version of an Agent, and the version of
the tasks that it has listed. -/
structure Reading where
  agent : Option (NamespacedName × Nat)
  tasks : Nat

/-- The tasks and the Agents, from which tasks each version of an Agent was counted, how many
writes of it were accepted, and what the Reconciles hold. -/
structure Board (ι : Type) where
  tasks : Versioned Roster
  agents : NamespacedName → Versioned AgentStatus
  cuts : NamespacedName → List Nat
  writes : NamespacedName → Nat
  holds : ι → Reading

/-- A Reconcile of an Agent or of a task. -/
inductive Controller where
  | agent (key : NamespacedName)
  | task (key : NamespacedName)
deriving DecidableEq

def Controller.entry : Controller → OperatorM Outcome
  | .agent key => reconcileAgent key
  | .task key => reconcile key

variable {ι : Type}

namespace Board

def start (r : Roster) (s : NamespacedName → AgentStatus) : Board ι where
  tasks := Versioned.start r
  agents key := Versioned.start (s key)
  cuts _ := []
  writes _ := 0
  holds _ := ⟨none, 0⟩

def hold [DecidableEq ι] (w : Board ι) (i : ι) (x : Reading) : Board ι :=
  { w with holds := Function.update w.holds i x }

/-- The status is written over the current version; from what it was counted is noted. -/
def writeAgent (w : Board ι) (i : ι) (key : NamespacedName) (s : AgentStatus) : Board ι := { w with
  agents := Function.update w.agents key ((w.agents key).write s)
  cuts := Function.update w.cuts key
    (if s = (w.agents key).current then w.cuts key else w.cuts key ++ [(w.holds i).tasks])
  writes := Function.update w.writes key (w.writes key + 1) }

/-- What the calls of a Reconcile do. An Agent may be read in any of its versions. -/
def Serve [DecidableEq ι] (w : Board ι) (i : ι) : (o : ApiOp) → o.Resp → Board ι → Prop
  | .getAgent key, .ok agent, w' => ∃ n, agent.key = key ∧
    (w.agents key).versions[n]? = some agent.status ∧
      w' = w.hold i { w.holds i with agent := some (key, n) }
  | .listTasks ns, .ok ts, w' => ∃ r, w.tasks.Shows r ∧
    ts.Perm (r.tasks.filter fun t => t.ns = ns) ∧
      w' = w.hold i { w.holds i with tasks := w.tasks.seen }
  | .updateAgentStatus agent, r, w' => ((∃ err, r = .error err) ∧ w' = w) ∨
    ∃ n, (w.holds i).agent = some (agent.key, n) ∧ (w.agents agent.key).Accepts n ∧
      w' = w.writeAgent i agent.key agent.status
  | .updateTaskStatus t, _, w' => w' = w ∨
    w' = { w with tasks := w.tasks.write (w.tasks.current.setTask t.key t.status) }
  | _, _, w' => w' = w

/-- Tasks come, change and go, and the cache catches up with them. -/
inductive Drift : Board ι → Board ι → Prop where
  | change (w : Board ι) (r : Roster) : Drift w { w with tasks := w.tasks.write r }
  | catchUp {w : Board ι} {n : Nat} : w.tasks.seen ≤ n → n < w.tasks.versions.length →
      Drift w { w with tasks := w.tasks.read n }

end Board

def board (ι : Type) [DecidableEq ι] :
    Environment (ι × ApiOp) (ClientResp ι ApiOp.Resp) (Board ι) where
  answer w o r w' := w.Serve o.1 o.2 r w'
  drift := Board.Drift

theorem AgentStatus.Lists.congr {s : AgentStatus} {P Q : String → Prop} (h : s.Lists P)
    (hPQ : ∀ name, P name ↔ Q name) : s.Lists Q :=
  ⟨h.once, fun name => (h.mem_iff name).trans (hPQ name), h.active⟩

namespace Board

/-- Every version of an Agent's status was counted from a version of the tasks. -/
structure Sound (w : Board ι) : Prop where
  shown : w.tasks.seen < w.tasks.versions.length
  derives : ∀ key, Derives (fun r s => AgentStatus.Lists s (r.Counts key)) w.tasks (w.agents key)
    (w.cuts key)

/-- Since the version that the cache of board `w₀` shows, the tasks of the Agent that count have
been those of the names that satisfy `P`. -/
def AtRest (w w₀ : Board ι) (key : NamespacedName) (P : String → Prop) : Prop :=
  ∀ n r, w₀.tasks.seen ≤ n → w.tasks.versions[n]? = some r → ∀ name, r.Counts key name ↔ P name

/-- What holds of every board that comes after `w₀`. -/
structure Inv (w w₀ : Board ι) : Prop extends Sound w where
  seen : w₀.tasks.seen ≤ w.tasks.seen
  writes : ∀ key, w₀.writes key ≤ w.writes key
  counted : ∀ key P, w.AtRest w₀ key P → w₀.writes key < w.writes key →
    (w.agents key).current.Lists P

/-- After `w` comes `w'`, both after `w₀`. -/
structure Grows (w₀ w w' : Board ι) : Prop where
  inv : w.Inv w₀ → w'.Inv w₀
  tasks : w.tasks.Grows w'.tasks
  cuts : ∀ key, w.cuts key <+: w'.cuts key

variable {w₀ w w' : Board ι} {i : ι}

theorem Sound.inv (h : w₀.Sound) : w₀.Inv w₀ :=
  ⟨h, Nat.le_refl _, fun _ => Nat.le_refl _, fun _ _ _ hlt => absurd hlt (Nat.lt_irrefl _)⟩

theorem Sound.start (r : Roster) (s : NamespacedName → AgentStatus) : (start r s : Board ι).Sound :=
  ⟨Nat.zero_lt_one, fun _ => Derives.start _ _ _⟩

theorem Grows.refl (w₀ w : Board ι) : Grows w₀ w w := ⟨id, .refl _, fun _ => List.prefix_rfl⟩

theorem grows_hold [DecidableEq ι] (w₀ w : Board ι) (x : Reading) : Grows w₀ w (w.hold i x) :=
  ⟨fun h => ⟨⟨h.shown, h.derives⟩, h.seen, h.writes, h.counted⟩, .refl _, fun _ => List.prefix_rfl⟩

/-- Other versions of the tasks, which the cache may show. -/
theorem grows_tasks {tasks : Versioned Roster} (h : w.tasks.Grows tasks)
    (hshown : w.tasks.seen < w.tasks.versions.length → tasks.seen < tasks.versions.length) :
    Grows w₀ w { w with tasks := tasks } := by
  refine ⟨fun hw => ⟨⟨hshown hw.shown, fun key => (hw.derives key).grows h⟩, hw.seen.trans h.seen,
    hw.writes, ?_⟩, h, fun _ => List.prefix_rfl⟩
  intro key P hrest hwrites
  exact hw.counted key P (fun n r hn hr => hrest n r hn (h.getElem? hr)) hwrites

theorem grows_write (w₀ w : Board ι) (r : Roster) :
    Grows w₀ w { w with tasks := w.tasks.write r } := by
  refine grows_tasks (.write _ _) fun hshown => ?_
  have hlength := (w.tasks.prefix_write r).length_le
  rw [Versioned.write_seen]
  omega

theorem Drift.grows (h : w.Drift w') : Grows w₀ w w' := by
  cases h with
  | change r => exact grows_write w₀ w r
  | catchUp hn hlt => exact grows_tasks (.read _ hn) fun _ => hlt

theorem Drift.holds_eq (h : w.Drift w') : w'.holds = w.holds := by
  cases h <;> rfl

/-! ## What a Reconcile knows -/

/-- The Reconcile holds a version of the Agent. -/
def HasAgent (i : ι) (key : NamespacedName) (w : Board ι) : Prop :=
  ∃ n, (w.holds i).agent = some (key, n) ∧ n ≤ (w.cuts key).length

/-- It also holds a list of the tasks, made since `w₀`, that is no older than the versions of
the Agent up to the one it holds. -/
structure Listing (w₀ : Board ι) (i : ι) (key : NamespacedName) (n : Nat) (r : Roster)
    (ts : List AgentTask) (w : Board ι) : Prop where
  agent : (w.holds i).agent = some (key, n)
  known : n ≤ (w.cuts key).length
  since : w₀.tasks.seen ≤ (w.holds i).tasks
  seen : (w.holds i).tasks ≤ w.tasks.seen
  roster : w.tasks.versions[(w.holds i).tasks]? = some r
  listed : ts.Perm (r.tasks.filter fun t => t.ns = key.ns)
  cuts : ∀ m ∈ (w.cuts key).take n, m ≤ (w.holds i).tasks

def HasTasks (w₀ : Board ι) (i : ι) (key : NamespacedName) (ts : List AgentTask) (w : Board ι) : Prop :=
  ∃ n r, Listing w₀ i key n r ts w

/-- What the others do to what a Reconcile sees. -/
def Rely (w₀ : Board ι) (i : ι) (w w' : Board ι) : Prop := Grows w₀ w w' ∧ w'.holds i = w.holds i

/-- What a Reconcile does to what the others see. -/
def Guar (w₀ : Board ι) (i : ι) (w w' : Board ι) : Prop :=
  Grows w₀ w w' ∧ ∀ j, j ≠ i → w'.holds j = w.holds j

theorem rely_inv (w₁ w₂ : Board ι) (h : w₁.Inv w₀) (hr : Rely w₀ i w₁ w₂) : w₂.Inv w₀ := hr.1.inv h

theorem Guar.of_grows (h : Grows w₀ w w') (hholds : w'.holds = w.holds) : Guar w₀ i w w' :=
  ⟨h, fun _ _ => by rw [hholds]⟩

theorem HasAgent.rely {key : NamespacedName} (h : HasAgent i key w) (hw : Rely w₀ i w w') :
    HasAgent i key w' := by
  obtain ⟨n, hn, hle⟩ := h
  have hlength := (hw.1.cuts key).length_le
  exact ⟨n, by rw [hw.2]; exact hn, by omega⟩

theorem HasTasks.rely {key : NamespacedName} {ts : List AgentTask} (h : HasTasks w₀ i key ts w)
    (hw : Rely w₀ i w w') : HasTasks w₀ i key ts w' := by
  obtain ⟨n, r, h⟩ := h
  obtain ⟨hgrows, hholds⟩ := hw
  have hlength := (hgrows.cuts key).length_le
  have hknown := h.known
  refine ⟨n, r, by rw [hholds]; exact h.agent, by omega, by rw [hholds]; exact h.since, ?_, ?_,
    h.listed, ?_⟩
  · rw [hholds]
    exact h.seen.trans hgrows.tasks.seen
  · rw [hholds]
    exact hgrows.tasks.getElem? h.roster
  · intro m hm
    rw [hholds]
    apply h.cuts m
    obtain ⟨rest, hrest⟩ := hgrows.cuts key
    rw [← hrest, List.take_append_of_le_length hknown] at hm
    exact hm

/-- A write of the Agent over the version that was read before the tasks were listed. -/
theorem Listing.write {agent : Agent} {n : Nat} {r : Roster} {ts : List AgentTask} {time : Time}
    (h : Listing w₀ i agent.key n r ts w) (hacc : (w.agents agent.key).Accepts n) :
    Grows w₀ w (w.writeAgent i agent.key (countedStatus (runningTasks agent.name ts) time)) := by
  have hlists : (countedStatus (runningTasks agent.name ts) time).Lists (r.Counts agent.key) :=
    Census.lists_runningTasks (c := r.census) agent.key h.listed rfl rfl
  refine ⟨fun hw => ⟨⟨hw.shown, fun key => ?_⟩, hw.seen, fun key => ?_, fun key P hrest hwrites => ?_⟩,
    .refl _, fun key => ?_⟩
  · by_cases hkey : key = agent.key
    · subst hkey
      simp only [writeAgent, Function.update_self]
      exact (hw.derives _).write hacc h.cuts h.seen h.roster hlists
    · simp only [writeAgent, Function.update_of_ne hkey]
      exact hw.derives key
  · have hwrites := hw.writes key
    by_cases hkey : key = agent.key
    · subst hkey
      simp only [writeAgent, Function.update_self]
      omega
    · simpa only [writeAgent, Function.update_of_ne hkey] using hwrites
  · by_cases hkey : key = agent.key
    · subst hkey
      simp only [writeAgent, Function.update_self, Versioned.write_current]
      exact hlists.congr (hrest _ r h.since h.roster)
    · simp only [writeAgent, Function.update_of_ne hkey] at hwrites ⊢
      exact hw.counted key P hrest hwrites
  · by_cases hkey : key = agent.key
    · subst hkey
      simp only [writeAgent, Function.update_self]
      split
      · exact List.prefix_rfl
      · exact List.prefix_append _ _
    · simp only [writeAgent, Function.update_of_ne hkey]
      exact List.prefix_rfl

/-! ## What every Reconcile keeps -/

section Keeps
variable [DecidableEq ι] {α : Type}

/-- The Reconcile keeps what holds of every board after `w₀`. -/
def Proper (w₀ : Board ι) (i : ι) (p : OperatorM α) : Prop := ∀ w : Board ι, w.Inv w₀ →
  Keeps (board ι) (fun w => w.Inv w₀) (Rely w₀ i) (Guar w₀ i) (fun _ _ => True) (p.signed i) w

theorem guar_hold (w : Board ι) (x : Reading) : Guar w₀ i w (w.hold i x) :=
  ⟨grows_hold w₀ w x, fun _ hj => Function.update_of_ne hj _ _⟩

/-- What a call does that writes no Agent. -/
theorem Serve.guar {o : ApiOp} {r : o.Resp} (h : w.Serve i o r w') (ho : LeavesAgents o) :
    Guar w₀ i w w' := by
  have hsame : w' = w → Guar w₀ i w w' := by
    rintro rfl
    exact .of_grows (.refl _ _) rfl
  cases o with
  | getAgent key =>
    cases r with
    | error err => exact hsame h
    | ok agent =>
      obtain ⟨n, _, _, rfl⟩ := h
      exact guar_hold _ _
  | listTasks ns =>
    cases r with
    | error err => exact hsame h
    | ok ts =>
      obtain ⟨r, _, _, rfl⟩ := h
      exact guar_hold _ _
  | updateTaskStatus t =>
    rcases h with h | rfl
    · exact hsame h
    · exact .of_grows (grows_write _ _ _) rfl
  | updateAgentStatus agent => exact ho.elim
  | _ => exact hsame h

theorem Proper.ret (a : α) : Proper w₀ i (.ret a : OperatorM α) := fun _ _ => trivial

theorem Proper.call {o : ApiOp} {next : o.Resp → OperatorM α} (ho : LeavesAgents o)
    (hnext : ∀ r, Proper w₀ i (next r)) : Proper w₀ i (.call o next) := by
  intro w hw r w₁ hans
  have hguar : Guar w₀ i w w₁ := Serve.guar hans ho
  exact ⟨hguar.1.inv hw, hguar, fun w₂ _ hw₂ => hnext r w₂ hw₂⟩

/-- The end of a count: the time, and the write of the status. -/
theorem count_keeps {rest : Except ApiError Unit → OperatorM α} (hrest : ∀ r, Proper w₀ i (rest r))
    {agent : Agent} {name : String} (hname : name = agent.name) {ts : List AgentTask} (hw : w.Inv w₀)
    (hts : HasTasks w₀ i agent.key ts w) :
    Keeps (board ι) (fun w => w.Inv w₀) (Rely w₀ i) (Guar w₀ i) (fun _ _ => True)
      ((now >>= fun time => writeAgentStatus { agent with
        status := countedStatus (runningTasks name ts) time } >>= rest).signed i) w := by
  subst hname
  refine Keeps.call (fun _ => HasTasks w₀ i agent.key ts) (fun _ _ _ h hr _ => h.rely hr) rely_inv ?_ ?_
  · intro time w₁ hans
    have hsame : w₁ = w := hans
    subst hsame
    exact ⟨hw, .of_grows (.refl _ _) rfl, hts⟩
  · intro time w₁ hw₁ hts₁ r w₂ hans
    have hguar : Guar w₀ i w₁ w₂ := by
      rcases hans with ⟨_, rfl⟩ | ⟨n, hn, hacc, rfl⟩
      · exact .of_grows (.refl _ _) rfl
      · obtain ⟨n', roster, hlists⟩ := hts₁
        have hsame := hlists.agent.symm.trans hn
        cases hsame
        exact .of_grows (hlists.write hacc) rfl
    exact ⟨hguar.1.inv hw₁, hguar, fun w₃ _ hw₃ => hrest r w₃ hw₃⟩

/-- A count from its beginning. -/
theorem Proper.counts (key : NamespacedName) (name : Agent → String)
    (hname : ∀ agent : Agent, agent.key = key → name agent = agent.name)
    {failed unlisted : ApiError → OperatorM α} {rest : Except ApiError Unit → OperatorM α}
    (hfailed : ∀ err, Proper w₀ i (failed err)) (hunlisted : ∀ err, Proper w₀ i (unlisted err))
    (hrest : ∀ r, Proper w₀ i (rest r)) :
    Proper w₀ i (getAgent key >>= fun r => match r with
      | .error err => failed err
      | .ok agent => listTasks key.ns >>= fun r => match r with
        | .error err => unlisted err
        | .ok ts => now >>= fun time => writeAgentStatus { agent with
            status := countedStatus (runningTasks (name agent) ts) time } >>= rest) := by
  intro w hw
  refine Keeps.call (fun r w => ∀ agent, r = .ok agent → agent.key = key ∧ HasAgent i key w)
    (fun _ _ _ h hr _ agent hagent => ⟨(h agent hagent).1, (h agent hagent).2.rely hr⟩) rely_inv
    ?_ ?_
  · intro r w₁ hans
    have hguar : Guar w₀ i w w₁ := Serve.guar hans trivial
    refine ⟨hguar.1.inv hw, hguar, ?_⟩
    rintro agent rfl
    obtain ⟨n, hkey, hversion, rfl⟩ := hans
    have hlength := (hw.derives key).length
    have hn := (List.getElem?_eq_some_iff.mp hversion).1
    refine ⟨hkey, n, by simp only [hold, Function.update_self], ?_⟩
    change n ≤ (w.cuts key).length
    omega
  · intro r w₁ hw₁ hread
    cases r with
    | error err => exact hfailed err w₁ hw₁
    | ok agent =>
      obtain ⟨hkey, hagent⟩ := hread agent rfl
      subst hkey
      refine Keeps.call (fun r w => ∀ ts, r = .ok ts → HasTasks w₀ i agent.key ts w)
        (fun _ _ _ h hr _ ts hts => (h ts hts).rely hr) rely_inv ?_ ?_
      · intro r w₂ hans
        have hguar : Guar w₀ i w₁ w₂ := Serve.guar hans trivial
        refine ⟨hguar.1.inv hw₁, hguar, ?_⟩
        rintro ts rfl
        obtain ⟨roster, hshows, hperm, rfl⟩ := hans
        obtain ⟨n, hn, hle⟩ := hagent
        refine ⟨n, roster, ?_, hle, ?_, ?_, ?_, hperm, ?_⟩
        · simpa only [hold, Function.update_self] using hn
        · simp only [hold, Function.update_self]
          exact hw₁.seen
        · simp only [hold, Function.update_self, Nat.le_refl]
        · simp only [hold, Function.update_self]
          exact hshows
        · intro m hm
          simp only [hold, Function.update_self]
          exact (hw₁.derives agent.key).seen m (List.mem_of_mem_take hm)
      · intro r w₂ hw₂ hlisted
        cases r with
        | error err => exact hunlisted err w₂ hw₂
        | ok ts => exact count_keeps hrest (hname agent rfl) hw₂ (hlisted ts rfl)

theorem Proper.updateAgentStatus (agentName ns : String) {rest : Unit → OperatorM α}
    (hrest : Proper w₀ i (rest ())) : Proper w₀ i (updateAgentStatus agentName ns >>= rest) := by
  have hcounts : Proper w₀ i (getAgent ⟨agentName, ns⟩ >>= fun r => match r with
      | .error _ => rest ()
      | .ok agent => listTasks ns >>= fun r => match r with
        | .error _ => rest ()
        | .ok ts => now >>= fun time => writeAgentStatus { agent with
            status := countedStatus (runningTasks agentName ts) time } >>= fun _ => rest ()) :=
    Proper.counts ⟨agentName, ns⟩ (fun _ => agentName)
      (fun agent hkey => (congrArg NamespacedName.name hkey).symm) (fun _ => hrest) (fun _ => hrest)
      fun _ => hrest
  have heq : (Operator.updateAgentStatus agentName ns >>= rest) = (getAgent ⟨agentName, ns⟩ >>= fun r =>
      match r with
      | .error _ => rest ()
      | .ok agent => listTasks ns >>= fun r => match r with
        | .error _ => rest ()
        | .ok ts => now >>= fun time => writeAgentStatus { agent with
            status := countedStatus (runningTasks agentName ts) time } >>= fun _ => rest ()) := by
    refine congrArg (Program.call _) (funext fun r => ?_)
    cases r with
    | error err => rfl
    | ok agent =>
      refine congrArg (Program.call _) (funext fun r => ?_)
      cases r <;> rfl
  rw [heq]
  exact hcounts

theorem proper_of_counting {p : OperatorM α} (hp : Counting p) : Proper w₀ i p := by
  induction hp with
  | ret a => exact Proper.ret a
  | call ho _ ih => exact Proper.call ho ih
  | count agentName ns _ ih => exact Proper.updateAgentStatus agentName ns ih

theorem reconcileAgent_proper (req : NamespacedName) : Proper w₀ i (reconcileAgent req) := by
  unfold reconcileAgent
  refine Proper.counts req Agent.name (fun _ _ => rfl) (fun err => ?_) (fun _ => Proper.ret _)
    fun r => ?_
  · split <;> exact Proper.ret _
  · cases r <;> exact Proper.ret _

theorem entry_proper (c : Controller) : Proper w₀ i c.entry := by
  cases c with
  | agent key => exact reconcileAgent_proper key
  | task key => exact proper_of_counting (reconcile_counting key)

end Keeps

/-! ## Runs -/

/-- The states that the Reconciles reach from a board with every Reconcile at an end. -/
abbrev Reaches (w₀ : Board Controller)
    (c : Pool Controller (Controller × ApiOp) (ClientResp Controller ApiOp.Resp) Outcome
      (Board Controller)) : Prop :=
  Pool.Reachable (board Controller) (fun i => i.entry.signed i) w₀ c

theorem Sound.reaches {w₀ : Board Controller} (h₀ : w₀.Sound)
    {c : Pool Controller (Controller × ApiOp) (ClientResp Controller ApiOp.Resp) Outcome
      (Board Controller)} (hc : Reaches w₀ c) : c.world.Inv w₀ := by
  refine Pool.Reachable.invariant (fun w => w.Inv w₀) (Rely w₀) (Guar w₀) ?_ ?_ ?_ ?_ h₀.inv hc
  · exact fun w w' h hd => (Drift.grows hd).inv h
  · exact fun i w w' hd => ⟨Drift.grows hd, by rw [Drift.holds_eq hd]⟩
  · exact fun i j w w' hij h => ⟨h.1, h.2 j (Ne.symm hij)⟩
  · exact fun i w hw => entry_proper i w hw

/-- Every status of an Agent that was ever written is the count of one version of the tasks, and
a later status is never the count of an earlier version. -/
theorem status_derived {r : Roster} {s : NamespacedName → AgentStatus}
    {c : Pool Controller (Controller × ApiOp) (ClientResp Controller ApiOp.Resp) Outcome
      (Board Controller)} (hc : Reaches (start r s) c) (key : NamespacedName) : ∃ cuts,
    Derives (fun r s => AgentStatus.Lists s (r.Counts key)) c.world.tasks (c.world.agents key) cuts :=
  ⟨_, ((Sound.start r s).reaches hc).derives key⟩

theorem Drift.writes_eq {w w' : Board ι} (h : w.Drift w') : w'.writes = w.writes := by
  cases h <;> rfl

theorem drifts_writes {w w' : Board ι} (h : Relation.ReflTransGen Drift w w') :
    w'.writes = w.writes := by
  induction h with
  | refl => rfl
  | tail _ hd ih => rw [Drift.writes_eq hd, ih]

section Requeue
variable [DecidableEq ι] {α : Type} {w w' : Board ι} {i : ι}
  {tr : List (Event (ClientResp ι ApiOp.Resp))}

theorem executes_ret {a b : α} (h : Executes (board ι) (.ret a) w tr b w') : b = a :=
  h.of_ret.2.1

theorem executes_call {o : ApiOp} {next : o.Resp → OperatorM α} {a : α}
    (h : Executes (board ι) ((Program.call o next).signed i) w tr a w') :
    ∃ (w₁ : Board ι) (r : o.Resp) (w₂ : Board ι) (tr' : List (Event (ClientResp ι ApiOp.Resp))),
      w₁.writes = w.writes ∧ w₁.Serve i o r w₂ ∧
      Executes (board ι) ((next r).signed i) w₂ tr' a w' := by
  obtain ⟨w₁, r, w₂, tr', hd, hans, _, hn⟩ := h.of_call
  exact ⟨w₁, r, w₂, tr', drifts_writes hd, hans, hn⟩

/-- A Reconcile of an Agent asks for its next turn only when its write has been accepted. -/
theorem writes_of_requeue {key : NamespacedName}
    (h : Executes (board ι) ((reconcileAgent key).signed i) w tr
      (.ok { requeueAfter := requeueAfter }) w') : w.writes key < w'.writes key := by
  obtain ⟨w₁, r, w₂, tr₁, hwrites₁, hread, h⟩ := executes_call h
  cases r with
  | error err =>
    have hend : (if err.reason = .notFound then pure (.ok {}) else pure (.error err) :
        OperatorM Outcome).signed i = .ret (if err.reason = .notFound then .ok {} else .error err) := by
      split <;> rfl
    change Executes (board ι) ((if err.reason = .notFound then pure (.ok {}) else pure (.error err) :
      OperatorM Outcome).signed i) _ _ _ _ at h
    rw [hend] at h
    have hout := executes_ret h
    split at hout
    · cases hout
    · cases hout
  | ok agent =>
    obtain ⟨n, hkey, _, rfl⟩ := hread
    obtain ⟨w₃, r, w₄, tr₂, hwrites₃, hlist, h⟩ := executes_call h
    cases r with
    | error err => cases executes_ret h
    | ok ts =>
      obtain ⟨roster, _, _, rfl⟩ := hlist
      obtain ⟨w₅, time, w₆, tr₃, hwrites₅, hnow, h⟩ := executes_call h
      have hsame : w₆ = w₅ := hnow
      subst hsame
      obtain ⟨w₇, r, w₈, tr₄, hwrites₇, hwrite, h⟩ := executes_call h
      cases r with
      | error err => cases executes_ret h
      | ok _ =>
        obtain ⟨_, _, hend⟩ := h.of_ret
        rw [drifts_writes hend]
        rcases hwrite with ⟨⟨_, herror⟩, _⟩ | ⟨_, _, _, rfl⟩
        · cases herror
        · have hlater : w₇.writes = w.writes :=
            hwrites₇.trans (hwrites₅.trans (hwrites₃.trans hwrites₁))
          change w.writes key < Function.update w₇.writes agent.key (w₇.writes agent.key + 1) key
          rw [hkey, Function.update_self, hlater]
          exact Nat.lt_succ_self _

end Requeue

/-- Whatever an Agent's status was, its own Reconcile sets it right if no other is under way, and
it stays right, whichever Reconciles start after it and wherever they fail, as long as the tasks
that count are those of the version that the cache showed before it. -/
theorem repaired {w w' : Board Controller} (hw : w.Sound) {key : NamespacedName}
    {tr : List (Event (ClientResp Controller ApiOp.Resp))}
    (hrun : Executes (board Controller) ((reconcileAgent key).signed (.agent key)) w tr
      (.ok { requeueAfter := requeueAfter }) w')
    {c : Pool Controller (Controller × ApiOp) (ClientResp Controller ApiOp.Resp) Outcome
      (Board Controller)} (hc : Reaches w' c) {P : String → Prop}
    (hrest : c.world.AtRest w key P) : (c.world.agents key).current.Lists P := by
  have hended : Reaches w (Pool.idle w') := Pool.Reachable.execute (i := .agent key) .refl hrun
  have hinv := hw.reaches (hended.trans hc)
  have hlater := ((hw.reaches hended).toSound.reaches hc).writes key
  have hwrites := writes_of_requeue hrun
  exact hinv.counted key P hrest (Nat.lt_of_lt_of_le hwrites hlater)

/-! ## A run -/

/-- Every read is of what is current and in the cache, and every write that can be is accepted. -/
def respond [DecidableEq ι] (w : Board ι) : (o : ι × ApiOp) → ClientResp ι ApiOp.Resp o × Board ι
  | (i, .getAgent key) =>
    (.ok { demoAgent with name := key.name, ns := key.ns, status := (w.agents key).current },
      w.hold i { w.holds i with agent := some (key, (w.agents key).latest) })
  | (i, .listTasks ns) =>
    match w.tasks.versions[w.tasks.seen]? with
    | some r => (.ok (r.tasks.filter fun t => t.ns = ns), w.hold i { w.holds i with
        tasks := w.tasks.seen })
    | none => (.error Behaviour.conflict, w)
  | (i, .updateAgentStatus agent) =>
    if (w.holds i).agent = some (agent.key, (w.agents agent.key).latest) then
      (.ok (), w.writeAgent i agent.key agent.status)
    else (.error Behaviour.conflict, w)
  | (_, .updateTaskStatus t) =>
    (.ok (), { w with tasks := w.tasks.write (w.tasks.current.setTask t.key t.status) })
  | (_, .getTask key) =>
    (match w.tasks.current.tasks.find? fun t => t.key = key with
    | some t => .ok t
    | none => .error Behaviour.conflict, w)
  | (_, .getPod _) => (.error ⟨.notFound, "pod not found"⟩, w)
  | (_, .setControllerReference _ _) => (.ok (), w)
  | (_, .createPod _) => (.ok (), w)
  | (_, .deletePod _) => (.ok (), w)
  | (_, .httpGet _) => (.error "", w)
  | (_, .httpPost _) => (.error "", w)
  | (_, .now) => ((0 : Time), w)

theorem answer_respond [DecidableEq ι] (w : Board ι) (o : ι × ApiOp) :
    (board ι).answer w o (w.respond o).1 (w.respond o).2 := by
  obtain ⟨i, o⟩ := o
  change w.Serve i o (w.respond (i, o)).1 (w.respond (i, o)).2
  cases o with
  | getAgent key => exact ⟨_, rfl, (w.agents key).current_eq_getElem?, rfl⟩
  | listTasks ns =>
    unfold respond
    cases hshown : w.tasks.versions[w.tasks.seen]? with
    | some r => exact ⟨r, hshown, .refl _, rfl⟩
    | none => rfl
  | updateAgentStatus agent =>
    unfold respond
    by_cases h : (w.holds i).agent = some (agent.key, (w.agents agent.key).latest)
    · simp only [if_pos h]
      refine Or.inr ⟨_, h, ?_, rfl⟩
      have hpos := (w.agents agent.key).length_pos
      unfold Versioned.Accepts Versioned.latest
      omega
    · simp only [if_neg h]
      exact Or.inl ⟨⟨_, rfl⟩, rfl⟩
  | updateTaskStatus t => exact Or.inr rfl
  | _ => rfl

theorem runningTask_alone : ([runningTask].map AgentTask.key).Nodup := List.nodup_singleton _

/-- A running task, and Agents that list none. -/
def demoBoard : Board Controller :=
  start ⟨[runningTask], runningTask_alone⟩ fun _ => ⟨false, 0, none, none⟩

def demoRun := play respond ((reconcileAgent runningTask.agentKey).signed (.agent runningTask.agentKey))
  demoBoard

theorem demoRun_executes : Executes (board Controller)
    ((reconcileAgent runningTask.agentKey).signed (.agent runningTask.agentKey)) demoBoard demoRun.1
      (.ok { requeueAfter := requeueAfter }) demoRun.2.2 := by
  have hrun := Executes.of_play answer_respond ((reconcileAgent runningTask.agentKey).signed
    (.agent runningTask.agentKey)) demoBoard
  exact hrun

/-- The states of a pool of Reconciles. -/
abbrev Reconciles : Type :=
  Pool Controller (Controller × ApiOp) (ClientResp Controller ApiOp.Resp) Outcome (Board Controller)

def takeTurns (turns : List Controller) (c : Reconciles) : Reconciles :=
  turns.foldl (Pool.turn respond fun i => i.entry.signed i) c

/-- The Agent's Reconcile has counted the task, which a Reconcile of its own has written as failed. -/
def staleCount : Reconciles :=
  let agent := Controller.agent runningTask.agentKey
  let task := Controller.task runningTask.key
  takeTurns [agent, agent, task, task, task, task, agent, agent, agent, task] (Pool.idle demoBoard)

/-- The task's Reconcile counts as well, from a cache that knows. -/
def freshCount : Reconciles :=
  let task := Controller.task runningTask.key
  takeTurns [task, task, task]
    { staleCount with world := { staleCount.world with tasks := staleCount.world.tasks.read 1 } }

theorem status_derived_demo : (∃ cuts, Derives (fun r s => AgentStatus.Lists s
      (r.Counts runningTask.agentKey)) freshCount.world.tasks
      (freshCount.world.agents runningTask.agentKey) cuts) ∧
    (freshCount.world.agents runningTask.agentKey).versions.map (fun s => s.runningTasks.items) =
      [[], ["t"], []] := by
  have hstale : Reaches demoBoard staleCount := Pool.Reachable.turns answer_respond _ .refl
  have hcaught : staleCount.world.Drift
      { staleCount.world with tasks := staleCount.world.tasks.read 1 } :=
    .catchUp (by decide +kernel) (by decide +kernel)
  have hfresh : Reaches demoBoard freshCount :=
    Pool.Reachable.turns answer_respond _ (hstale.tail (.drift hcaught))
  exact ⟨status_derived hfresh runningTask.agentKey, by decide +kernel⟩

theorem repaired_demo : (demoRun.2.2.agents runningTask.agentKey).current.Lists (fun name => name = "t") := by
  refine repaired (c := Pool.idle demoRun.2.2) (Sound.start _ _) demoRun_executes .refl ?_
  intro n r _ hr name
  have hone : demoRun.2.2.tasks.versions = [⟨[runningTask], runningTask_alone⟩] := rfl
  change demoRun.2.2.tasks.versions[n]? = some r at hr
  rw [hone] at hr
  obtain rfl := List.mem_singleton.mp (List.mem_of_getElem? hr)
  constructor
  · rintro ⟨t, ht, rfl, -⟩
    rw [List.mem_singleton.mp ht]
    rfl
  · rintro rfl
    exact ⟨runningTask, List.mem_singleton_self _, rfl, rfl, Or.inl rfl⟩

end Board

end BulletFarm.Operator
