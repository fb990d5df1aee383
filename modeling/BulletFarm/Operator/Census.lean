import BulletFarm.Interaction.Triple
import BulletFarm.Operator.TaskRun
import Mathlib.Data.List.Nodup
import Mathlib.Data.List.Perm.Basic
import Mathlib.Logic.Function.Basic

/-!
# The tasks that an Agent counts

The status of an Agent lists the tasks of it that run or are to run. A Reconcile of a task that
counts them does so from the tasks as they are written at that moment.
-/

namespace BulletFarm.Operator

open Go Interaction

set_option autoImplicit false

def AgentTask.agentKey (task : AgentTask) : NamespacedName := ⟨task.spec.agentRef, task.ns⟩

/-- The tasks, and the statuses of the Agents that there are. -/
structure Census where
  tasks : List AgentTask
  agents : NamespacedName → Option AgentStatus
  distinct : (tasks.map AgentTask.key).Nodup

namespace Census

def setTask (c : Census) (key : NamespacedName) (s : AgentTaskStatus) : Census where
  tasks := c.tasks.map fun t => if t.key = key then { t with status := s } else t
  agents := c.agents
  distinct := by
    have hkeys : (c.tasks.map fun t => if t.key = key then { t with status := s } else t).map
        AgentTask.key = c.tasks.map AgentTask.key := by
      rw [List.map_map]
      refine List.map_congr_left fun t _ => ?_
      rw [Function.comp_apply]
      split <;> rfl
    rw [hkeys]
    exact c.distinct

def setAgent (c : Census) (key : NamespacedName) (s : AgentStatus) : Census :=
  { c with agents := Function.update c.agents key (some s) }

/-- The task of the name is the Agent's, and runs or is to run. -/
def Counts (c : Census) (key : NamespacedName) (name : String) : Prop :=
  ∃ t ∈ c.tasks, t.name = name ∧ t.agentKey = key ∧
    (t.status.phase = .running ∨ t.status.phase = .pending)

end Census

/-- The status lists the names that satisfy `P`, each once. -/
structure AgentStatus.Lists (s : AgentStatus) (P : String → Prop) : Prop where
  once : s.runningTasks.items.Nodup
  mem_iff : ∀ name, name ∈ s.runningTasks.items ↔ P name
  active : s.activeTasks = s.runningTasks.items.length

namespace Census

/-- The status of the Agent lists the names that satisfy `P`. -/
def AgentLists (c : Census) (key : NamespacedName) (P : String → Prop) : Prop :=
  ∃ s, c.agents key = some s ∧ s.Lists P

/-- The status of the Agent lists its tasks that run or are to run. -/
def UpToDate (c : Census) (key : NamespacedName) : Prop := c.AgentLists key (c.Counts key)

variable {c c' : Census} {key : NamespacedName}

theorem AgentLists.congr {P Q : String → Prop} (h : c.AgentLists key P) (hPQ : ∀ name, P name ↔ Q name) :
    c.AgentLists key Q := by
  obtain ⟨s, hs, honce, hmem, hactive⟩ := h
  exact ⟨s, hs, honce, fun name => (hmem name).trans (hPQ name), hactive⟩

theorem AgentLists.unique {P Q : String → Prop} (hP : c.AgentLists key P) (hQ : c.AgentLists key Q)
    (name : String) : P name ↔ Q name := by
  obtain ⟨s, hs, hP⟩ := hP
  obtain ⟨s', hs', hQ⟩ := hQ
  rw [hs] at hs'
  cases hs'
  exact (hP.mem_iff name).symm.trans (hQ.mem_iff name)

theorem eq_of_key {t t' : AgentTask} (ht : t ∈ c.tasks) (ht' : t' ∈ c.tasks) (h : t.key = t'.key) :
    t = t' := List.inj_on_of_nodup_map c.distinct ht ht' h

theorem mem_setTask {t t' : AgentTask} {s : AgentTaskStatus} (ht : t ∈ c.tasks) :
    t' ∈ (c.setTask t.key s).tasks ↔ t' = { t with status := s } ∨ t' ∈ c.tasks ∧ t' ≠ t := by
  rw [setTask, List.mem_map]
  constructor
  · rintro ⟨u, hu, rfl⟩
    split
    · next hkey =>
      rw [eq_of_key hu ht hkey]
      exact Or.inl rfl
    · next hkey => exact Or.inr ⟨hu, fun hut => hkey (congrArg _ hut)⟩
  · rintro (rfl | ⟨ht', hne⟩)
    · exact ⟨t, ht, if_pos rfl⟩
    · exact ⟨t', ht', if_neg fun hkey => hne (eq_of_key ht' ht hkey)⟩

/-- What is counted once the status of a task has been written. -/
theorem counts_setTask {t : AgentTask} {s : AgentTaskStatus} (ht : t ∈ c.tasks) (name : String) :
    (c.setTask t.key s).Counts t.agentKey name ↔
      (t.name = name ∧ (s.phase = .running ∨ s.phase = .pending)) ∨
        (t.name ≠ name ∧ c.Counts t.agentKey name) := by
  constructor
  · rintro ⟨t', ht', hname, hagent, hphase⟩
    rcases (mem_setTask ht).mp ht' with rfl | ⟨hin, hne⟩
    · exact Or.inl ⟨hname, hphase⟩
    · refine Or.inr ⟨fun htname => hne (eq_of_key hin ht ?_), t', hin, hname, hagent, hphase⟩
      have hns : t'.ns = t.ns := congrArg NamespacedName.ns hagent
      rw [AgentTask.key, AgentTask.key, hname, hns, htname]
  · rintro (⟨hname, hphase⟩ | ⟨hname, t', hin, hname', hagent, hphase⟩)
    · exact ⟨_, (mem_setTask ht).mpr (Or.inl rfl), hname, rfl, hphase⟩
    · refine ⟨t', (mem_setTask ht).mpr (Or.inr ⟨hin, ?_⟩), hname', hagent, hphase⟩
      rintro rfl
      exact hname hname'

end Census

/-! ## The count -/

theorem runningTasks_items (agentName : String) (tasks : List AgentTask) :
    (runningTasks agentName tasks).items = (tasks.filter fun t =>
      t.spec.agentRef = agentName ∧ (t.status.phase = .running ∨ t.status.phase = .pending)).map
        AgentTask.name := by
  have hfold : ∀ acc : Slice String, (tasks.foldl (fun acc t =>
      if t.spec.agentRef = agentName ∧ (t.status.phase = .running ∨ t.status.phase = .pending) then
        Slice.append acc t.name
      else acc) acc).items = acc.items ++ (tasks.filter fun t =>
        t.spec.agentRef = agentName ∧ (t.status.phase = .running ∨ t.status.phase = .pending)).map
          AgentTask.name := by
    induction tasks with
    | nil =>
      intro acc
      rw [List.filter_nil, List.map_nil, List.append_nil]
      rfl
    | cons t tasks ih =>
      intro acc
      rw [List.foldl_cons, ih, List.filter_cons]
      simp only [decide_eq_true_eq]
      split
      · rw [List.map_cons, Slice.append, Slice.items_some, List.append_assoc, List.singleton_append]
      · rfl
  exact hfold none

/-- What a list of all tasks of the namespace gives is what is to be counted. -/
theorem Census.lists_runningTasks {c : Census} (key : NamespacedName) {ts : List AgentTask}
    (hts : ts.Perm (c.tasks.filter fun t => t.ns = key.ns)) {s : AgentStatus}
    (hrunning : s.runningTasks = runningTasks key.name ts)
    (hactive : s.activeTasks = (runningTasks key.name ts).items.length) :
    s.Lists (c.Counts key) := by
  have hmem : ∀ t, t ∈ ts ↔ t ∈ c.tasks ∧ t.ns = key.ns := by
    intro t
    rw [hts.mem_iff, List.mem_filter, decide_eq_true_eq]
  refine ⟨?_, ?_, by rw [hactive, hrunning]⟩
  · rw [hrunning, runningTasks_items]
    have hnodup : ts.Nodup := hts.nodup_iff.mpr (List.Nodup.filter _ (List.Nodup.of_map _ c.distinct))
    refine List.Nodup.map_on ?_ (hnodup.filter _)
    intro t ht t' ht' hname
    obtain ⟨hin, hns⟩ := (hmem t).mp (List.mem_filter.mp ht).1
    obtain ⟨hin', hns'⟩ := (hmem t').mp (List.mem_filter.mp ht').1
    exact Census.eq_of_key hin hin' (by rw [AgentTask.key, AgentTask.key, hname, hns, hns'])
  · intro name
    rw [hrunning, runningTasks_items, List.mem_map]
    constructor
    · rintro ⟨t, ht, rfl⟩
      obtain ⟨ht, hcount⟩ := List.mem_filter.mp ht
      obtain ⟨hin, hns⟩ := (hmem t).mp ht
      obtain ⟨hagent, hphase⟩ := of_decide_eq_true hcount
      exact ⟨t, hin, rfl, by rw [AgentTask.agentKey, hagent, hns], hphase⟩
    · rintro ⟨t, hin, rfl, hagent, hphase⟩
      refine ⟨t, List.mem_filter.mpr ⟨(hmem t).mpr ⟨hin, ?_⟩, decide_eq_true ⟨?_, hphase⟩⟩, rfl⟩
      · exact congrArg NamespacedName.ns hagent
      · exact congrArg NamespacedName.name hagent

/-! ## A Reconcile that is not disturbed -/

/-- Census, pods and workers while one Reconcile goes on. -/
structure Setting where
  census : Census
  pods : NamespacedName → Except ApiError Pod
  replies : WorkerURL → Except String HttpReply

/-- Every read is current, and every call on a task or on an Agent succeeds. -/
def Setting.Serves (w : Setting) : (o : ApiOp) → o.Resp → Setting → Prop
  | .getTask key, r, w' => w' = w ∧ ∃ t ∈ w.census.tasks, t.key = key ∧ r = .ok t
  | .getAgent key, r, w' => w' = w ∧ ∃ agent, r = .ok agent ∧ agent.name = key.name ∧
    agent.ns = key.ns ∧ w.census.agents key = some agent.status
  | .listTasks ns, r, w' => w' = w ∧ ∃ ts, r = .ok ts ∧
    ts.Perm (w.census.tasks.filter fun t => t.ns = ns)
  | .getPod key, r, w' => w' = w ∧ r = w.pods key
  | .httpGet url, r, w' => w'.census = w.census ∧ r = w.replies url
  | .updateTaskStatus t, r, w' => r = .ok () ∧ w'.census = w.census.setTask t.key t.status
  | .updateAgentStatus agent, r, w' => r = .ok () ∧
    w'.census = w.census.setAgent ⟨agent.name, agent.ns⟩ agent.status
  | _, _, w' => w'.census = w.census

/-- If the phase of the task is not what it was, its Agent counts it as it is. -/
def Recounted (t : AgentTask) (c : Census) : Prop :=
  ∀ t' ∈ c.tasks, t'.key = t.key → t'.status.phase ≠ t.status.phase → c.UpToDate t.agentKey

/-- The answers of a worker that end an attempt. -/
def endings : List String := ["Succeeded", "Completed", "Incomplete", "Failed"]

/-- The worker of the task can be asked, and says that the attempt has ended. -/
def HasEnded (t : AgentTask) (w : Setting) : Prop :=
  ∃ pod status, w.pods t.podKey = .ok pod ∧ pod.phase = .running ∧ pod.podIP ≠ "" ∧
    decodeReply {} WorkerStatus.set (w.replies ⟨pod.podIP, t.name, .status⟩) = .ok status ∧
      status.phase ∈ endings

/-- The Agent lists the task beside the tasks to be counted. -/
def Foreseen (t : AgentTask) (c : Census) : Prop :=
  c.AgentLists t.agentKey fun name => name = t.name ∨ c.Counts t.agentKey name

/-- A task that becomes Pending is listed already, and an attempt has not ended. -/
def InTime (t : AgentTask) (w : Setting) : Prop :=
  match t.status.phase with
  | .unset | .unknown _ => Foreseen t w.census
  | .failed => t.status.retryCount < maxRetries t.spec → Foreseen t w.census
  | .running => ¬ HasEnded t w
  | _ => True

section Writes
variable {c : Census} {t : AgentTask} {s : AgentTaskStatus}

theorem Recounted.of_upToDate (h : c.UpToDate t.agentKey) : Recounted t c := fun _ _ _ _ => h

theorem Recounted.of_mem (ht : t ∈ c.tasks) : Recounted t c := by
  intro t' ht' hkey hphase
  rw [Census.eq_of_key ht' ht hkey] at hphase
  exact absurd rfl hphase

theorem Recounted.of_setTask (ht : t ∈ c.tasks) (hs : s.phase = t.status.phase) :
    Recounted t (c.setTask t.key s) := by
  intro t' ht' hkey hphase
  rcases (Census.mem_setTask ht).mp ht' with rfl | ⟨hin, hne⟩
  · exact absurd hs hphase
  · exact absurd (Census.eq_of_key hin ht hkey) hne

theorem recounted_setTask_iff (ht : t ∈ c.tasks) (hs : s.phase ≠ t.status.phase) :
    Recounted t (c.setTask t.key s) ↔ (c.setTask t.key s).UpToDate t.agentKey :=
  ⟨fun h => h _ ((Census.mem_setTask ht).mpr (Or.inl rfl)) rfl hs, Recounted.of_upToDate⟩

/-- A task that becomes Pending without a count. -/
theorem recounted_pending_iff (ht : t ∈ c.tasks) (hs : s.phase = .pending)
    (hphase : t.status.phase ≠ .pending) :
    Recounted t (c.setTask t.key s) ↔ Foreseen t c := by
  rw [recounted_setTask_iff ht (hs ▸ hphase.symm)]
  have hcounts : ∀ name, (c.setTask t.key s).Counts t.agentKey name ↔
      (name = t.name ∨ c.Counts t.agentKey name) := by
    intro name
    rw [Census.counts_setTask ht]
    by_cases hname : t.name = name
    · simp [hname, hs]
    · simp [hname, Ne.symm hname]
  constructor
  · intro h
    have hlists : c.AgentLists t.agentKey ((c.setTask t.key s).Counts t.agentKey) := h
    exact hlists.congr hcounts
  · intro h
    have hlists : (c.setTask t.key s).AgentLists t.agentKey
        (fun name => name = t.name ∨ c.Counts t.agentKey name) := h
    exact hlists.congr fun name => (hcounts name).symm

/-- A task that was counted, and then stops being to be counted. -/
theorem not_recounted (ht : t ∈ c.tasks) (hcount : c.UpToDate t.agentKey)
    (hphase : t.status.phase = .running) (hs : s.phase ≠ .running) (hs' : s.phase ≠ .pending) :
    ¬ Recounted t (c.setTask t.key s) := by
  rw [recounted_setTask_iff ht (hphase ▸ hs)]
  intro h
  have hlists : c.AgentLists t.agentKey ((c.setTask t.key s).Counts t.agentKey) := h
  have hin : c.Counts t.agentKey t.name := ⟨t, ht, rfl, rfl, Or.inl hphase⟩
  rcases (Census.counts_setTask ht _).mp ((hcount.unique hlists _).mp hin) with ⟨_, h⟩ | ⟨h, _⟩
  · exact h.elim hs hs'
  · exact h rfl

end Writes

/-! ## The handlers -/

section Handlers
variable {w : Setting}

theorem updateAgentStatus_counts (agentName ns : String) (w : Setting) :
    (updateAgentStatus agentName ns).Within Setting.Serves (fun _ w' =>
      w'.census.tasks = w.census.tasks ∧ w'.census.UpToDate ⟨agentName, ns⟩) w := by
  rintro r w₁ ⟨rfl, agent, rfl, hname, hns, -⟩
  rintro r w₂ ⟨rfl, ts, rfl, hts⟩
  intro time w₃ hnow
  rintro r w₄ ⟨rfl, hwrite⟩
  have hcensus : w₃.census = w₂.census := hnow
  rw [hcensus, hname, hns] at hwrite
  refine ⟨by rw [hwrite]; rfl, ?_⟩
  rw [hwrite]
  refine ⟨_, Function.update_self _ _ _, ?_⟩
  exact Census.lists_runningTasks ⟨agentName, ns⟩ hts rfl rfl

/-- Whatever is written, the task is counted at the end. -/
theorem countLast {t : AgentTask} {out : Outcome} (w : Setting) :
    (updateAgentStatus t.spec.agentRef t.ns >>= fun _ => (pure out : OperatorM Outcome)).Within
      Setting.Serves (fun _ w' => w'.census.UpToDate t.agentKey) w :=
  (updateAgentStatus_counts _ _ w).bind fun _ _ h => h.2

theorem recounted_of_counts {t : AgentTask} {p : OperatorM Outcome}
    (hp : p.Within Setting.Serves (fun _ w' => w'.census.UpToDate t.agentKey) w) :
    p.Within Setting.Serves (fun _ w' => Recounted t w'.census) w :=
  hp.mono fun _ _ h => Recounted.of_upToDate h

theorem cleanupWorkerPod_census (podName ns : String) (w : Setting) :
    (cleanupWorkerPod podName ns).Within Setting.Serves (fun _ w' => w'.census = w.census) w := by
  rintro r w₁ ⟨rfl, hr⟩
  cases r with
  | error err => exact rfl
  | ok pod => exact fun r w₂ hdelete => hdelete

theorem recordRunning_counts (t : AgentTask) (podName : String) (w : Setting) :
    (recordRunning t podName).Within Setting.Serves (fun _ w' => w'.census.UpToDate t.agentKey) w := by
  intro time w₁ hnow
  rintro r w₂ ⟨rfl, hwrite⟩
  exact countLast w₂

theorem postpone_recounted {t : AgentTask} (ht : t ∈ w.census.tasks) (message : String) :
    (postpone t message).Within Setting.Serves (fun _ w' => Recounted t w'.census) w := by
  rintro r w₁ ⟨rfl, hwrite⟩
  change Recounted t w₁.census
  rw [hwrite]
  exact Recounted.of_setTask ht rfl

theorem handlePending_recounted {t : AgentTask} (ht : t ∈ w.census.tasks) :
    (handlePending t).Within Setting.Serves (fun _ w' => Recounted t w'.census) w := by
  rintro r w₁ ⟨rfl, agent, rfl, -⟩
  intro r w₂ href
  have hcensus : w₂.census = w₁.census := href
  have ht₂ : t ∈ w₂.census.tasks := hcensus ▸ ht
  cases r with
  | error err => exact Recounted.of_mem ht₂
  | ok _ =>
    intro r w₃ hcreate
    have hcensus₃ : w₃.census = w₂.census := hcreate
    have ht₃ : t ∈ w₃.census.tasks := hcensus₃ ▸ ht₂
    have hrecord := recounted_of_counts (recordRunning_counts t (buildWorkerPod t agent
      (marshal (taskPayload t agent).toJson)).name w₃)
    cases r with
    | ok _ => exact hrecord
    | error err =>
      change Program.Within Setting.Serves _ (if err.reason = .alreadyExists then _ else _) w₃
      split
      · exact hrecord
      · exact postpone_recounted ht₃ _

theorem finishWaiting_counts (t : AgentTask) (w : Setting) :
    (finishWaiting t).Within Setting.Serves (fun _ w' => w'.census.UpToDate t.agentKey) w := by
  rintro r w₁ ⟨rfl, hwrite⟩
  refine (updateAgentStatus_counts _ _ w₁).bind fun _ w₂ h => ?_
  split <;> exact h.2

theorem concludePR_counts (t : AgentTask) (podIP : String) (phase : Phase) (message : String)
    (w : Setting) : (concludePR t podIP phase message).Within Setting.Serves
      (fun _ w' => w'.census.UpToDate t.agentKey) w := by
  intro r w₁ hpost
  refine (cleanupWorkerPod_census _ _ w₁).bind fun _ w₂ _ => ?_
  exact finishWaiting_counts _ w₂

theorem handlePRStatus_counts (t : AgentTask) (podIP : String) (prStatus : PRStatusResponse)
    (w : Setting) : (handlePRStatus t podIP prStatus).Within Setting.Serves
      (fun _ w' => w'.census.UpToDate t.agentKey) w := by
  rw [handlePRStatus]
  split
  · exact concludePR_counts _ podIP _ _ w
  · split
    · exact concludePR_counts _ podIP _ _ w
    · exact finishWaiting_counts _ w

theorem closeWithoutPR_counts (t : AgentTask) (w : Setting) :
    (closeWithoutPR t).Within Setting.Serves (fun _ w' => w'.census.UpToDate t.agentKey) w := by
  rintro r w₁ ⟨rfl, hwrite⟩
  exact (cleanupWorkerPod_census _ _ w₁).bind fun _ w₂ _ => countLast w₂

theorem closeUntracked_counts (t : AgentTask) (w : Setting) :
    (closeUntracked t).Within Setting.Serves (fun _ w' => w'.census.UpToDate t.agentKey) w := by
  rintro r w₁ ⟨rfl, hwrite⟩
  exact countLast w₁

theorem handleWaitingForPR_recounted {t : AgentTask} (ht : t ∈ w.census.tasks) :
    (handleWaitingForPR t).Within Setting.Serves (fun _ w' => Recounted t w'.census) w := by
  rw [handleWaitingForPR]
  split
  · exact recounted_of_counts (closeWithoutPR_counts t w)
  · rintro r w₁ ⟨rfl, hr⟩
    cases r with
    | error err => exact recounted_of_counts (closeUntracked_counts t w₁)
    | ok pod =>
      change Program.Within Setting.Serves _ (if pod.phase ≠ .running ∨ pod.podIP = "" then _ else _) w₁
      split
      · exact recounted_of_counts (closeUntracked_counts t w₁)
      · rintro r w₂ ⟨hsame, -⟩
        dsimp only [Program.bind, Program.pure_eq]
        cases decodeReply {} PRStatusResponse.set r with
        | error err => exact Recounted.of_mem (hsame ▸ ht)
        | ok prStatus => exact recounted_of_counts (handlePRStatus_counts t pod.podIP prStatus w₂)

/-- What the worker says ends the attempt: the count comes before the write. -/
theorem countFirst {t t' : AgentTask} (ht : t ∈ w.census.tasks)
    (hphase : t.status.phase = .running) (ht' : t' = { t with status := t'.status })
    (hended : t'.status.phase ≠ .running) (hpending : t'.status.phase ≠ .pending) :
    (updateAgentStatus t'.spec.agentRef t'.ns >>= fun _ => finishRunning t').Within Setting.Serves
      (fun _ w' => ¬ Recounted t w'.census) w := by
  have hagent : t'.agentKey = t.agentKey := by rw [ht']; rfl
  refine (updateAgentStatus_counts _ _ w).bind fun _ w₁ ⟨htasks, hcount⟩ => ?_
  have ht₁ : t ∈ w₁.census.tasks := htasks ▸ ht
  have hcount : w₁.census.UpToDate t.agentKey := hagent ▸ hcount
  rintro r w₂ ⟨rfl, hwrite⟩
  have hkey : t'.key = t.key := by rw [ht']; rfl
  have hlast : ¬ Recounted t w₂.census := by
    rw [hwrite, hkey]
    exact not_recounted ht₁ hcount hphase hended hpending
  change Program.Within Setting.Serves _ (if t'.status.phase = .running then _ else _) w₂
  split
  · exact hlast
  · split <;> exact hlast

theorem podFailure_counts (t : AgentTask) (message reason : String) (w : Setting) :
    (podFailure t message reason).Within Setting.Serves (fun _ w' => w'.census.UpToDate t.agentKey)
      w := by
  rintro r w₁ ⟨rfl, hwrite⟩
  exact countLast w₁

theorem podSucceeded_counts {t : AgentTask} (hphase : t.status.phase = .running) (w : Setting) :
    (podSucceeded t).Within Setting.Serves (fun _ w' => w'.census.UpToDate t.agentKey) w := by
  have hrunning : t.status.phase ≠ .completed := by simp [hphase]
  rw [podSucceeded, if_pos hrunning]
  intro time w₁ hnow
  rintro r w₂ ⟨rfl, hwrite⟩
  exact countLast w₂

/-- The answer of the worker decides whether the Agent counts the task as it is. -/
theorem handleWorkerStatus_recounted_iff {t : AgentTask} (ht : t ∈ w.census.tasks)
    (hphase : t.status.phase = .running) (podIP : String) (status : WorkerStatus) :
    (handleWorkerStatus t podIP status).Within Setting.Serves
      (fun _ w' => Recounted t w'.census ↔ status.phase ∉ endings) w := by
  have hended : ∀ {p : OperatorM Outcome} {w : Setting}, status.phase ∈ endings →
      p.Within Setting.Serves (fun _ w' => ¬ Recounted t w'.census) w →
      p.Within Setting.Serves (fun _ w' => Recounted t w'.census ↔ status.phase ∉ endings) w :=
    fun hin hp => hp.mono fun _ _ h => iff_of_false h (not_not.mpr hin)
  rw [handleWorkerStatus]
  by_cases hsucceeded : status.phase = "Succeeded" ∨ status.phase = "Completed"
  · have hin : status.phase ∈ endings := by rcases hsucceeded with h | h <;> simp [endings, h]
    rw [if_pos hsucceeded]
    apply hended hin
    intro time w₁ hnow r w₂ hpost
    have hsame : w₂.census = w.census := Eq.trans hpost hnow
    exact countFirst (hsame ▸ ht) hphase rfl nofun nofun
  rw [if_neg hsucceeded]
  by_cases hincomplete : status.phase = "Incomplete"
  · rw [if_pos hincomplete]
    exact hended (by simp [endings, hincomplete]) (countFirst ht hphase rfl nofun nofun)
  rw [if_neg hincomplete]
  by_cases hfailed : status.phase = "Failed"
  · rw [if_pos hfailed]
    exact hended (by simp [endings, hfailed]) (countFirst ht hphase rfl nofun nofun)
  rw [if_neg hfailed]
  have hnone : status.phase ∉ endings := by
    obtain ⟨h₁, h₂⟩ := not_or.mp hsucceeded
    simp [endings, h₁, h₂, hincomplete, hfailed]
  rintro r w₁ ⟨rfl, hwrite⟩
  have hlast : Recounted t w₁.census ↔ status.phase ∉ endings := by
    rw [hwrite]
    exact iff_of_true (Recounted.of_setTask ht rfl) hnone
  change Program.Within Setting.Serves _ (if (polledStatus status t.status).phase = .running then _
    else _) w₁
  split
  · exact hlast
  · split <;> exact hlast

theorem handleRunning_recounted_iff {t : AgentTask} (ht : t ∈ w.census.tasks)
    (hphase : t.status.phase = .running) :
    (handleRunning t).Within Setting.Serves (fun _ w' => Recounted t w'.census ↔ ¬ HasEnded t w) w := by
  rintro r w₁ ⟨rfl, hr⟩
  have hkept : ∀ {p : OperatorM Outcome} {w : Setting}, ¬ HasEnded t w₁ →
      p.Within Setting.Serves (fun _ w' => Recounted t w'.census) w →
      p.Within Setting.Serves (fun _ w' => Recounted t w'.census ↔ ¬ HasEnded t w₁) w :=
    fun hnone hp => hp.mono fun _ _ h => iff_of_true h hnone
  have hsame : (pure (.ok { requeueAfter := requeueAfter }) : OperatorM Outcome).Within
      Setting.Serves (fun _ w' => Recounted t w'.census) w₁ := Recounted.of_mem ht
  cases r with
  | error err =>
    have hnone : ¬ HasEnded t w₁ := by
      rintro ⟨pod, status, hpod, -⟩
      rw [← hr] at hpod
      cases hpod
    change Program.Within Setting.Serves _ (if err.reason = .notFound then _ else _) w₁
    split
    · exact hkept hnone (recounted_of_counts (podFailure_counts t _ _ w₁))
    · exact hkept hnone hsame
  | ok pod =>
    have hpod : ∀ {P : Pod → WorkerStatus → Prop}, (∃ pod' status, w₁.pods t.podKey = .ok pod' ∧
        P pod' status) → ∃ status, P pod status := by
      rintro P ⟨pod', status, hpod', h⟩
      rw [← hr] at hpod'
      cases hpod'
      exact ⟨status, h⟩
    have hnot : pod.phase ≠ .running → ¬ HasEnded t w₁ := by
      intro hne hended
      obtain ⟨_, hrunning, -⟩ := hpod hended
      exact hne hrunning
    change Program.Within Setting.Serves _ (watchPod t (.ok pod)) w₁
    unfold watchPod
    dsimp only
    split
    · next hfailed => exact hkept (hnot (by simp [hfailed])) (recounted_of_counts (podFailure_counts t _ _ w₁))
    · next hdone => exact hkept (hnot (by simp [hdone])) (recounted_of_counts (podSucceeded_counts hphase w₁))
    · next hrunning =>
      split
      · next hip =>
        refine hkept ?_ hsame
        intro hended
        obtain ⟨_, _, hne, -⟩ := hpod hended
        exact hne hip
      · next hip =>
        rintro r w₂ ⟨hcensus, rfl⟩
        have ht₂ : t ∈ w₂.census.tasks := hcensus ▸ ht
        dsimp only [Program.bind, Program.pure_eq]
        cases hdecode : decodeReply {} WorkerStatus.set
            (w₁.replies ⟨pod.podIP, t.name, .status⟩) with
        | error err =>
          refine iff_of_true (Recounted.of_mem ht₂) fun hended => ?_
          obtain ⟨status, _, _, hstatus, _⟩ := hpod hended
          rw [hdecode] at hstatus
          cases hstatus
        | ok status =>
          refine (handleWorkerStatus_recounted_iff ht₂ hphase pod.podIP status).mono fun _ w' h => ?_
          refine h.trans (not_congr ⟨fun hin => ⟨pod, status, hr.symm, hrunning, hip, hdecode, hin⟩, ?_⟩)
          intro hended
          obtain ⟨status', _, _, hstatus, hin⟩ := hpod hended
          rw [hdecode] at hstatus
          cases hstatus
          exact hin
    · next hne => exact hkept (hnot hne) hsame

theorem becomesPending {t : AgentTask} {s : AgentTaskStatus} {w' : Setting} (ht : t ∈ w.census.tasks)
    (hs : s.phase = .pending) (hphase : t.status.phase ≠ .pending)
    (hwrite : w'.census = w.census.setTask t.key s) :
    Recounted t w'.census ↔ Foreseen t w.census := by
  rw [hwrite]
  exact recounted_pending_iff ht hs hphase

theorem handleFailed_recounted_iff {t : AgentTask} (ht : t ∈ w.census.tasks)
    (hphase : t.status.phase = .failed) : (handleFailed t).Within Setting.Serves (fun _ w' =>
      Recounted t w'.census ↔ (t.status.retryCount < maxRetries t.spec → Foreseen t w.census)) w := by
  have hrest : ∀ w₁ : Setting, w₁.census = w.census →
      (if t.status.retryCount < maxRetries t.spec then retryTask t else giveUp t).Within Setting.Serves
        (fun _ w' => Recounted t w'.census ↔
          (t.status.retryCount < maxRetries t.spec → Foreseen t w.census)) w₁ := by
    intro w₁ hsame
    have ht₁ : t ∈ w₁.census.tasks := hsame ▸ ht
    split
    · next hretry =>
      rintro r w₂ ⟨rfl, hwrite⟩
      have hpending := becomesPending ht₁ rfl (by simp [hphase]) hwrite
      rw [hsame] at hpending
      exact hpending.trans ⟨fun h _ => h, fun h => h hretry⟩
    · next hretry =>
      rintro r w₂ ⟨rfl, hwrite⟩
      refine iff_of_true ?_ fun h => absurd h hretry
      rw [hwrite]
      exact Recounted.of_setTask ht₁ rfl
  rw [handleFailed]
  split
  · exact (cleanupWorkerPod_census _ _ w).bind fun _ w₁ h => hrest w₁ h
  · exact hrest w rfl

theorem dispatch_recounted_iff {t : AgentTask} (ht : t ∈ w.census.tasks) :
    (dispatch t).Within Setting.Serves (fun _ w' => Recounted t w'.census ↔ InTime t w) w := by
  have hkept : ∀ {p : OperatorM Outcome}, InTime t w →
      p.Within Setting.Serves (fun _ w' => Recounted t w'.census) w →
      p.Within Setting.Serves (fun _ w' => Recounted t w'.census ↔ InTime t w) w :=
    fun hin hp => hp.mono fun _ _ h => iff_of_true h hin
  unfold dispatch
  cases hphase : t.status.phase with
  | unset =>
    rintro r w₁ ⟨rfl, hwrite⟩
    have htime : InTime t w ↔ Foreseen t w.census := by simp only [InTime, hphase]
    exact (becomesPending ht rfl (by simp [hphase]) hwrite).trans htime.symm
  | pending => exact hkept (by simp [InTime, hphase]) (handlePending_recounted ht)
  | running => simpa only [InTime, hphase] using handleRunning_recounted_iff ht hphase
  | failed => simpa only [InTime, hphase] using handleFailed_recounted_iff ht hphase
  | completed => exact hkept (by simp [InTime, hphase]) (handleWaitingForPR_recounted ht)
  | waitingForPR => exact hkept (by simp [InTime, hphase]) (handleWaitingForPR_recounted ht)
  | merged => exact hkept (by simp [InTime, hphase]) (Recounted.of_mem ht)
  | closed => exact hkept (by simp [InTime, hphase]) (Recounted.of_mem ht)
  | unknown text =>
    rintro r w₁ ⟨rfl, hwrite⟩
    have htime : InTime t w ↔ Foreseen t w.census := by simp only [InTime, hphase]
    exact (becomesPending ht rfl (by simp [hphase]) hwrite).trans htime.symm

end Handlers

/-- A Reconcile that changes the phase of a task leaves its Agent with the right count exactly if
the Agent foresaw a task that becomes Pending, and the worker has not ended the attempt. -/
theorem recounted_iff {w w' : Setting} {t : AgentTask} {tr : List (Event ApiOp.Resp)}
    {out : Outcome} (ht : t ∈ w.census.tasks) (hrun : (reconcile t.key).Runs tr out)
    (hserves : Threads Setting.Serves w tr w') : Recounted t w'.census ↔ InTime t w := by
  have hreconcile : (reconcile t.key).Within Setting.Serves
      (fun _ w' => Recounted t w'.census ↔ InTime t w) w := by
    rintro r w₁ ⟨rfl, t', ht', hkey, rfl⟩
    rw [Census.eq_of_key ht' ht hkey]
    exact dispatch_recounted_iff ht
  exact hreconcile.runs hrun hserves

/-! ## A task that its worker reports on -/

namespace Setting

/-- Whatever can succeed does. -/
def respond (w : Setting) : (o : ApiOp) → o.Resp × Setting
  | .getTask key =>
    (match w.census.tasks.find? fun t => t.key = key with
    | some t => .ok t
    | none => .error ⟨.notFound, ""⟩, w)
  | .getAgent key =>
    (match w.census.agents key with
    | some s => .ok { demoAgent with name := key.name, ns := key.ns, status := s }
    | none => .error ⟨.notFound, ""⟩, w)
  | .listTasks ns => (.ok (w.census.tasks.filter fun t => t.ns = ns), w)
  | .getPod key => (w.pods key, w)
  | .httpGet url => (w.replies url, w)
  | .updateTaskStatus t => (.ok (), { w with census := w.census.setTask t.key t.status })
  | .updateAgentStatus agent =>
    (.ok (), { w with census := w.census.setAgent ⟨agent.name, agent.ns⟩ agent.status })
  | .setControllerReference _ _ => (.ok (), w)
  | .createPod _ => (.ok (), w)
  | .deletePod _ => (.ok (), w)
  | .httpPost url => (w.replies url, w)
  | .now => ((0 : Time), w)

/-- The task or the Agent that the call reads is there. -/
def Known (w : Setting) : (o : ApiOp) → o.Resp → Setting → Prop
  | .getTask key, _, _ => (w.census.tasks.find? fun t => t.key = key).isSome
  | .getAgent key, _, _ => (w.census.agents key).isSome
  | _, _, _ => True

instance (w : Setting) : (o : ApiOp) → (r : o.Resp) → (w' : Setting) → Decidable (w.Known o r w')
  | .getTask _, _, _ => inferInstanceAs (Decidable (Option.isSome _ = true))
  | .getAgent _, _, _ => inferInstanceAs (Decidable (Option.isSome _ = true))
  | .getPod _, _, _ | .listTasks _, _, _ | .setControllerReference _ _, _, _ | .createPod _, _, _
  | .deletePod _, _, _ | .updateTaskStatus _, _, _ | .updateAgentStatus _, _, _ | .httpGet _, _, _
  | .httpPost _, _, _ | .now, _, _ => isTrue trivial

theorem serves_respond (w : Setting) (o : ApiOp) (h : w.Known o (w.respond o).1 (w.respond o).2) :
    w.Serves o (w.respond o).1 (w.respond o).2 := by
  cases o with
  | getTask key =>
    obtain ⟨t, ht⟩ := Option.isSome_iff_exists.mp h
    refine ⟨rfl, t, List.mem_of_find?_eq_some ht, ?_, ?_⟩
    · simpa using List.find?_some ht
    · simp only [respond, ht]
  | getAgent key =>
    obtain ⟨s, hs⟩ := Option.isSome_iff_exists.mp h
    refine ⟨rfl, { demoAgent with name := key.name, ns := key.ns, status := s }, ?_, rfl, rfl, hs⟩
    simp only [respond, hs]
  | listTasks ns => exact ⟨rfl, _, rfl, .refl _⟩
  | getPod key => exact ⟨rfl, rfl⟩
  | httpGet url => exact ⟨rfl, rfl⟩
  | updateTaskStatus t => exact ⟨rfl, rfl⟩
  | updateAgentStatus agent => exact ⟨rfl, rfl⟩
  | _ => rfl

end Setting

def runningTask : AgentTask :=
  demoTask.withStatus fun s => { s with phase := .running, workerPod := "worker-t" }

/-- Its worker is at the phase, and its Agent lists it. -/
def reportingSetting (phase : String) : Setting where
  census := ⟨[runningTask], fun key => if key = runningTask.agentKey then
    some ⟨true, 1, some ["t"], none⟩ else none, List.nodup_singleton _⟩
  pods _ := .ok (demoPod .running)
  replies _ := demoReply [("phase", .str phase)]

/-- The trace, the result and the last world of its next Reconcile. -/
def reportingRun (phase : String) : List (Event ApiOp.Resp) × Outcome × Setting :=
  play Setting.respond (reconcile runningTask.key) (reportingSetting phase)

def waitingTask : AgentTask := demoTask.withStatus fun s => { s with phase := .pending }

/-- Its Agent counts another task, which runs. -/
def waitingSetting : Setting where
  census := ⟨[waitingTask, { runningTask with name := "u" }],
    fun key => if key = waitingTask.agentKey then some ⟨true, 1, some ["u"], none⟩ else none, by decide⟩
  pods _ := .ok (demoPod .running)
  replies _ := demoReply []

def waitingRun : List (Event ApiOp.Resp) × Outcome × Setting :=
  play Setting.respond (reconcile waitingTask.key) waitingSetting

/-- The task is given its pod, and its Agent counts both. -/
theorem recounted_iff_demo : Recounted waitingTask waitingRun.2.2.census ∧
    (waitingRun.2.2.census.tasks.map fun t => (t.name, t.status.phase)) =
      [("t", .running), ("u", .running)] ∧
    waitingRun.2.2.census.agents waitingTask.agentKey = some ⟨true, 2, some ["t", "u"], some 0⟩ := by
  refine ⟨(recounted_iff List.mem_cons_self (runs_play _ _ _)
    (Threads.of_playsWithin Setting.respond Setting.serves_respond (by decide +kernel))).mpr ?_, ?_, ?_⟩
  · trivial
  · decide +kernel
  · decide +kernel

/-- The Agent is left with a task that waits for its pull request. -/
theorem count_outdated : ∃ w t tr out w', t ∈ w.census.tasks ∧ (reconcile t.key).Runs tr out ∧
    Threads Setting.Serves w tr w' ∧ ¬ Recounted t w'.census := by
  refine ⟨reportingSetting "Succeeded", runningTask, (reportingRun "Succeeded").1, _,
    (reportingRun "Succeeded").2.2, List.mem_singleton_self _, runs_play _ _ _,
    Threads.of_playsWithin Setting.respond Setting.serves_respond (by decide +kernel), fun h => ?_⟩
  have hphase : (reportingRun "Succeeded").2.2.census.tasks.all
      (fun t => t.key = runningTask.key ∧ t.status.phase = .waitingForPR) = true := by decide +kernel
  have hlisted : (reportingRun "Succeeded").2.2.census.agents runningTask.agentKey =
      some ⟨true, 1, some ["t"], some 0⟩ := by decide +kernel
  have hone : (reportingRun "Succeeded").2.2.census.tasks ≠ [] := by decide +kernel
  have hwaits : ∀ t ∈ (reportingRun "Succeeded").2.2.census.tasks,
      t.key = runningTask.key ∧ t.status.phase = .waitingForPR :=
    fun t ht => of_decide_eq_true (List.all_eq_true.mp hphase t ht)
  obtain ⟨t, ht⟩ := List.exists_mem_of_ne_nil _ hone
  obtain ⟨hkey, htphase⟩ := hwaits t ht
  obtain ⟨s, hs, hlists⟩ := h t ht hkey (by simp [htphase, runningTask, AgentTask.withStatus])
  rw [hlisted] at hs
  cases hs
  obtain ⟨u, hu, -, -, hactive⟩ := (hlists.mem_iff "t").mp (List.mem_singleton_self _)
  rw [(hwaits u hu).2] at hactive
  simp at hactive

end BulletFarm.Operator
