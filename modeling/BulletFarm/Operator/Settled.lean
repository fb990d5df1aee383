import BulletFarm.Interaction.Inevitable
import BulletFarm.Interaction.View
import BulletFarm.Operator.Lifetime

/-!
# A task comes to its end

A Reconcile is decisive if it reads the current task, if what it needs of the API server
succeeds, and if the pod, the worker or the pull request it asks about has something to
say. Whatever else happens, there are no more such Reconciles than the retries allow
before the task has come to its end.
-/

namespace BulletFarm.Operator

open Interaction Program

set_option autoImplicit false

variable {s : Versioned AgentTaskStatus}

/-- The worker says that its attempt is over. -/
def Ended (status : WorkerStatus) : Prop :=
  status.phase ∈ ["Succeeded", "Completed", "Incomplete", "Failed"]

/-- The pull request has been merged or closed. -/
def Decided (prStatus : PRStatusResponse) : Prop :=
  prStatus.merged = true ∨ prStatus.state = "closed"

/-- The pod of an attempt is gone, has ended, or can be asked. -/
def Telling : Except ApiError Pod → Prop
  | .error err => err.reason = .notFound
  | .ok pod => pod.phase = .failed ∨ pod.phase = .succeeded ∨ pod.phase = .running ∧ pod.podIP ≠ ""

/-- What the worker answers decides about the task. -/
def Conclusive (reply : Except String HttpReply) : Endpoint → Prop
  | .status => match decodeReply {} WorkerStatus.set reply with
    | .ok status => Ended status
    | .error _ => False
  | .prStatus => match decodeReply {} PRStatusResponse.set reply with
    | .ok prStatus => Decided prStatus
    | .error _ => False
  | _ => True

/-- The events of a decisive Reconcile that begins with the task at `s`. -/
def Decisive (s : Versioned AgentTaskStatus) : Event ApiOp.Resp → Prop
  | ⟨.getTask _, .ok t⟩ => t.resourceVersion = s.latest
  | ⟨.getTask _, .error _⟩ => False
  | ⟨.updateTaskStatus _, .error _⟩ => False
  | ⟨.getAgent _, .error _⟩ => s.current.phase ≠ .pending
  | ⟨.setControllerReference _ _, .error _⟩ => False
  | ⟨.createPod _, .error err⟩ => err.reason = .alreadyExists
  | ⟨.getPod _, r⟩ => s.current.phase = .running → Telling r
  | ⟨.httpGet url, r⟩ => Conclusive r url.endpoint
  | _ => True

instance (status : WorkerStatus) : Decidable (Ended status) :=
  inferInstanceAs (Decidable (_ ∈ _))

instance (prStatus : PRStatusResponse) : Decidable (Decided prStatus) :=
  inferInstanceAs (Decidable (_ ∨ _))

instance : DecidablePred Telling
  | .error err => inferInstanceAs (Decidable (err.reason = .notFound))
  | .ok _ => inferInstanceAs (Decidable (_ ∨ _ ∨ _ ∧ _))

instance (reply : Except String HttpReply) : (endpoint : Endpoint) →
    Decidable (Conclusive reply endpoint)
  | .status => match h : decodeReply {} WorkerStatus.set reply with
    | .ok status => decidable_of_iff (Ended status) (by simp [Conclusive, h])
    | .error _ => isFalse (by simp [Conclusive, h])
  | .prStatus => match h : decodeReply {} PRStatusResponse.set reply with
    | .ok prStatus => decidable_of_iff (Decided prStatus) (by simp [Conclusive, h])
    | .error _ => isFalse (by simp [Conclusive, h])
  | .finalize | .graduate => isTrue trivial

instance (s : Versioned AgentTaskStatus) : DecidablePred (Decisive s)
  | ⟨.getTask _, .ok t⟩ => inferInstanceAs (Decidable (t.resourceVersion = s.latest))
  | ⟨.getTask _, .error _⟩ => isFalse nofun
  | ⟨.updateTaskStatus _, .error _⟩ => isFalse nofun
  | ⟨.updateTaskStatus _, .ok _⟩ => isTrue trivial
  | ⟨.getAgent _, .error _⟩ => inferInstanceAs (Decidable (_ ≠ _))
  | ⟨.getAgent _, .ok _⟩ => isTrue trivial
  | ⟨.setControllerReference _ _, .error _⟩ => isFalse nofun
  | ⟨.setControllerReference _ _, .ok _⟩ => isTrue trivial
  | ⟨.createPod _, .error err⟩ => inferInstanceAs (Decidable (err.reason = .alreadyExists))
  | ⟨.createPod _, .ok _⟩ => isTrue trivial
  | ⟨.getPod _, r⟩ => inferInstanceAs (Decidable (_ → Telling r))
  | ⟨.httpGet url, r⟩ => inferInstanceAs (Decidable (Conclusive r url.endpoint))
  | ⟨.listTasks _, _⟩ | ⟨.deletePod _, _⟩ | ⟨.updateAgentStatus _, _⟩ | ⟨.httpPost _, _⟩
  | ⟨.now, _⟩ => isTrue trivial

/-- The task has been written with another phase. -/
def ChangesPhase (t : AgentTask) (e : Event ApiOp.Resp) : Prop :=
  ∃ b : AgentTaskStatus, e = ⟨.updateTaskStatus { t with status := b }, .ok ()⟩ ∧
    b.phase ≠ t.status.phase

/-! ## One Reconcile -/

section Comes
variable {t : AgentTask}

theorem updateStatus_comes {b : AgentTaskStatus} (hb : b.phase ≠ t.status.phase)
    {α : Type} (f : Except ApiError Unit → OperatorM α) :
    (updateStatus { t with status := b } >>= f).Comes (Decisive s) (ChangesPhase t) := by
  intro r hr
  cases r with
  | ok _ => exact Or.inl ⟨b, rfl, hb⟩
  | error err => exact hr.elim

theorem recordRunning_comes (ht : t.status.phase = .pending) (podName : String) :
    (recordRunning t podName).Comes (Decisive s) (ChangesPhase t) := by
  apply Comes.after
  intro time
  exact updateStatus_comes (by rw [ht]; nofun) _

theorem handlePending_comes (hs : s.current.phase = .pending) (ht : t.status.phase = .pending) :
    (handlePending t).Comes (Decisive s) (ChangesPhase t) := by
  intro r hr
  right
  cases r with
  | error err => exact absurd hs hr
  | ok agent =>
    intro r hr
    right
    cases r with
    | error err => exact hr.elim
    | ok _ =>
      intro r hr
      right
      cases r with
      | ok _ => exact recordRunning_comes ht _
      | error err =>
        change (if err.reason = .alreadyExists then _ else _ : OperatorM Outcome).Comes _ _
        rw [if_pos (show err.reason = .alreadyExists from hr)]
        exact recordRunning_comes ht _

theorem finishRunning_comes {b : AgentTaskStatus} (hb : b.phase ≠ t.status.phase) :
    (finishRunning { t with status := b }).Comes (Decisive s) (ChangesPhase t) :=
  updateStatus_comes hb _

theorem handleWorkerStatus_comes (ht : t.status.phase = .running) (podIP : String)
    {status : WorkerStatus} (hended : Ended status) :
    (handleWorkerStatus t podIP status).Comes (Decisive s) (ChangesPhase t) := by
  unfold handleWorkerStatus
  split
  · refine Comes.after _ fun time => Comes.after _ fun _ => Comes.after _ fun _ => ?_
    exact finishRunning_comes (by rw [ht]; nofun)
  split
  · refine Comes.after _ fun _ => ?_
    exact finishRunning_comes (by rw [ht]; nofun)
  split
  · refine Comes.after _ fun _ => ?_
    exact finishRunning_comes (by rw [ht]; nofun)
  · simp only [Ended, List.mem_cons, List.not_mem_nil, or_false] at hended
    tauto

theorem watchPod_comes (ht : t.status.phase = .running) {r : Except ApiError Pod} (hr : Telling r) :
    (watchPod t r).Comes (Decisive s) (ChangesPhase t) := by
  cases r with
  | error err =>
    change (if err.reason = .notFound then _ else _ : OperatorM Outcome).Comes _ _
    rw [if_pos (show err.reason = .notFound from hr)]
    exact updateStatus_comes (by rw [ht]; nofun) _
  | ok pod =>
    rcases hr with hphase | hphase | ⟨hphase, hip⟩
    · simp only [watchPod, hphase]
      exact updateStatus_comes (by rw [ht]; nofun) _
    · simp only [watchPod, hphase, podSucceeded, ht]
      exact Comes.after _ fun time => updateStatus_comes (by rw [ht]; nofun) _
    · simp only [watchPod, hphase, if_neg hip]
      intro r hr
      right
      change Conclusive r .status at hr
      unfold Conclusive at hr
      change (pure (decodeReply {} WorkerStatus.set r) >>= _ : OperatorM Outcome).Comes _ _
      generalize decodeReply {} WorkerStatus.set r = reply at hr ⊢
      cases reply with
      | error err => exact hr.elim
      | ok status => exact handleWorkerStatus_comes ht pod.podIP hr

theorem concludePR_comes {b : AgentTaskStatus} (podIP : String) {phase : Phase} (message : String)
    (hphase : phase ≠ t.status.phase) :
    (concludePR { t with status := b } podIP phase message).Comes (Decisive s) (ChangesPhase t) := by
  refine Comes.after _ fun _ => Comes.after _ fun _ => ?_
  exact updateStatus_comes hphase _

theorem trackPR_comes (ht : t.status.phase ∈ [Phase.completed, .waitingForPR])
    (r : Except ApiError Pod) : (trackPR t r).Comes (Decisive s) (ChangesPhase t) := by
  have hclosed : Phase.closed ≠ t.status.phase := fun h => by simp [← h] at ht
  have hmerged : Phase.merged ≠ t.status.phase := fun h => by simp [← h] at ht
  have huntracked : (closeUntracked t).Comes (Decisive s) (ChangesPhase t) :=
    updateStatus_comes hclosed _
  cases r with
  | error err => exact huntracked
  | ok pod =>
    simp only [trackPR]
    split
    · exact huntracked
    · intro r hr
      right
      change Conclusive r .prStatus at hr
      unfold Conclusive at hr
      change (pure (decodeReply {} PRStatusResponse.set r) >>= _ : OperatorM Outcome).Comes _ _
      generalize decodeReply {} PRStatusResponse.set r = reply at hr ⊢
      cases reply with
      | error err => exact hr.elim
      | ok prStatus =>
        change (handlePRStatus t pod.podIP prStatus).Comes _ _
        simp only [handlePRStatus]
        split
        · exact concludePR_comes _ _ hmerged
        · rename_i hnot
          rw [if_pos (hr.resolve_left hnot)]
          exact concludePR_comes _ _ hclosed

theorem handleWaitingForPR_comes (ht : t.status.phase ∈ [Phase.completed, .waitingForPR]) :
    (handleWaitingForPR t).Comes (Decisive s) (ChangesPhase t) := by
  unfold handleWaitingForPR
  split
  · exact updateStatus_comes (fun h => by simp [← h] at ht) _
  · exact Comes.after _ fun r => trackPR_comes ht r

theorem handleFailed_comes (ht : t.status.phase = .failed)
    (hleft : t.status.retryCount < maxRetries t.spec) :
    (handleFailed t).Comes (Decisive s) (ChangesPhase t) := by
  have hretry : (retryTask t).Comes (Decisive s) (ChangesPhase t) :=
    updateStatus_comes (by rw [ht]; nofun) _
  unfold handleFailed
  simp only [if_pos hleft]
  by_cases hpod : t.status.workerPod ≠ ""
  · rw [if_pos hpod]
    exact Comes.after _ fun _ => hretry
  · rw [if_neg hpod]
    exact hretry

/-- A decisive Reconcile of a task that is not at its end writes another phase. -/
theorem dispatch_comes (hs : s.current.phase = t.status.phase) (hknown : t.status.phase.Known)
    (hfinal : ¬ Final t.spec t.status) : (dispatch t).Comes (Decisive s) (ChangesPhase t) := by
  unfold dispatch
  cases hphase : t.status.phase with
  | unset => exact updateStatus_comes (by rw [hphase]; nofun) _
  | pending => exact handlePending_comes (hs.trans hphase) hphase
  | running =>
    intro r hr
    exact Or.inr (watchPod_comes hphase (hr (hs.trans hphase)))
  | failed =>
    apply handleFailed_comes hphase
    by_contra hnot
    exact hfinal (Or.inr (Or.inr ⟨hphase, Int.not_lt.mp hnot⟩))
  | completed => exact handleWaitingForPR_comes (by simp [hphase])
  | waitingForPR => exact handleWaitingForPR_comes (by simp [hphase])
  | merged => exact absurd (Or.inl hphase) hfinal
  | closed => exact absurd (Or.inr (Or.inl hphase)) hfinal
  | unknown text => exact absurd hphase (hknown text)

end Comes

/-! ## Every run -/

theorem Serve.grows_any {task : AgentTask} {s s' : Versioned AgentTaskStatus} {o : ApiOp} {r : o.Resp}
    (h : Serve task s o r s') : s.Grows s' := by
  cases o with
  | getTask key =>
    rcases h.read with rfl | ⟨n, a, _, hserves, rfl⟩
    · exact .refl s'
    · exact .read s hserves.1
  | updateTaskStatus t =>
    cases r with
    | ok _ => exact h.2 ▸ .write s t.status
    | error err =>
      rcases h with rfl | ⟨_, rfl⟩
      · exact .refl s'
      · exact .write s t.status
  | _ => exact h ▸ .refl s

section Runs
variable {W : Type} {task : AgentTask} {env : Environment ApiOp ApiOp.Resp W}
  {store : W → Versioned AgentTaskStatus}

theorem Stores.grows (hstore : Stores task env store) {w w' : W} (h : env.Leads w w') :
    (store w).Grows (store w') := by
  induction h with
  | refl => exact .refl _
  | tail _ hstep ih =>
    rcases hstep with hd | ⟨o, r, ha⟩
    · rwa [hstore.drift hd]
    · exact ih.trans (hstore.answer ha).grows_any

/-- A version does not lie before another one unless it leaves no more changes. -/
theorem TaskInv.changesLeft_le {spec : AgentTaskSpec} {s : Versioned AgentTaskStatus}
    (h : TaskInv spec s) {i j : Nat} (hij : i ≤ j) {a b : AgentTaskStatus}
    (ha : s.versions[i]? = some a) (hb : s.versions[j]? = some b) :
    changesLeft spec b ≤ changesLeft spec a := by
  refine h.moves.preserves (fun a b => changesLeft spec b ≤ changesLeft spec a)
    (fun a => Nat.le_refl _) (fun a b c hab hbc => ?_) hij ha hb
  have hpay := hbc.pays.1
  omega

/-- The task is not further from its end, and stays where it has come to it. -/
theorem TaskInv.settles {spec : AgentTaskSpec} {s s' : Versioned AgentTaskStatus}
    (h : TaskInv spec s') (hgrows : s.Grows s') :
    changesLeft spec s'.current ≤ changesLeft spec s.current ∧
      (Final spec s.current → Final spec s'.current) := by
  have hcurrent := hgrows.getElem? s.current_eq_getElem?
  have hle : s.latest ≤ s'.latest := Nat.sub_le_sub_right hgrows.versions.length_le 1
  exact ⟨h.changesLeft_le hle hcurrent s'.current_eq_getElem?,
    fun hfinal => (h.final hle hcurrent s'.current_eq_getElem? hfinal).1⟩

theorem final_of_changesLeft {spec : AgentTaskSpec} {a : AgentTaskStatus} (hknown : a.phase.Known)
    (h : changesLeft spec a = 0) : Final spec a := by
  unfold changesLeft at h
  cases hphase : a.phase with
  | merged => exact Or.inl hphase
  | closed => exact Or.inr (Or.inl hphase)
  | unknown text => exact absurd hphase (hknown text)
  | _ => simp [hphase] at h

/-- Nobody is at work, and a decisive Reconcile runs from its beginning to its end. -/
def DecisiveTurn (env : Environment ApiOp ApiOp.Resp W) (task : AgentTask)
    (store : W → Versioned AgentTaskStatus) (c c' : Pool Unit ApiOp ApiOp.Resp Outcome W) : Prop :=
  ∃ w w' tr out, c = Pool.idle w ∧ c' = Pool.idle w' ∧
    Executes env (reconcile task.key) w tr out w' ∧ ∀ e ∈ tr, Decisive (store w) e

/-- A run of the operator with `n` decisive Reconciles, and anything else between them. -/
abbrev Decides (env : Environment ApiOp ApiOp.Resp W) (task : AgentTask)
    (store : W → Versioned AgentTaskStatus) :=
  Turns (Pool.Step env fun _ : Unit => reconcile task.key) (DecisiveTurn env task store)

/-- What a decisive Reconcile makes of a task that is not at its end. -/
theorem Stores.executes_decisive (hstore : Stores task env store) {w w' : W}
    {tr : List (Event ApiOp.Resp)} {out : Outcome} (hinv : TaskInv task.spec (store w))
    (hinv' : TaskInv task.spec (store w')) (h : Executes env (reconcile task.key) w tr out w')
    (hdecisive : ∀ e ∈ tr, Decisive (store w) e) (hfinal : ¬ Final task.spec (store w).current) :
    changesLeft task.spec (store w').current < changesLeft task.spec (store w).current := by
  rcases hstore.executes_reconcile h with ⟨err, _, rfl, _⟩ | ⟨n, a, w₁, tr', rfl, hserves, hread, hrest⟩
  · exact (hdecisive _ List.mem_cons_self).elim
  have hn : n = (store w).latest := hdecisive _ List.mem_cons_self
  subst hn
  have ha : a = (store w).current :=
    Option.some.inj (hserves.2.symm.trans (store w).current_eq_getElem?)
  subst ha
  have hcomes := dispatch_comes (s := store w) (t := task.version (store w).latest (store w).current)
    rfl (hinv.known (store w).current_mem) hfinal
  obtain ⟨e, he, b, rfl, hphase⟩ := hcomes.runs hrest.runs fun e he =>
    hdecisive e (List.mem_cons_of_mem _ he)
  obtain ⟨w₂, w₃, hbefore, hans, hafter⟩ := hrest.leads_event he
  obtain ⟨hacc, hwrite⟩ := hstore.answer hans
  have hfirst : (store w).versions[(store w).latest]? = some (store w).current := hserves.2
  have hold : (store w₂).versions[(store w).latest]? = some (store w).current :=
    (hstore.grows hbefore).getElem? (by rw [hread]; exact hfirst)
  have hcurrent : (store w₂).current = (store w).current := hacc.current hold
  obtain ⟨b', hb', hmay⟩ := (dispatch_uses _).runs hrest.runs _ he
  have hsame : b' = b := (congrArg AgentTask.status hb').symm
  subst hsame
  have hpays := (hmay.statusMove (hinv.known (store w).current_mem)).pays.1
  have hone : phaseChange (store w).current b' = 1 := if_neg (Ne.symm hphase)
  have hle := (hinv'.settles (hstore.grows hafter)).1
  rw [hwrite, Versioned.write_current] at hle
  change changesLeft task.spec (store w').current ≤ changesLeft task.spec b' at hle
  change phaseChange (store w).current b' + changesLeft task.spec b' ≤
    changesLeft task.spec (store w).current at hpays
  omega

/-- However a run goes, and whatever fails in it: once it has had three decisive Reconciles for
each retry and five more, the task is at its end. -/
theorem Stores.task_settles (hstore : Stores task env store) {w₀ : W}
    (h₀ : store w₀ = Versioned.start .empty) {n : Nat}
    {c : Pool Unit ApiOp ApiOp.Resp Outcome W} (hc : Decides env task store n (Pool.idle w₀) c)
    (hn : 3 * (RetryBound task.spec).toNat + 5 ≤ n) : Final task.spec (store c.world).current := by
  have hinv : ∀ c, Reachable env task w₀ c → TaskInv task.spec (store c.world) :=
    fun c hc => hstore.taskInv h₀ hc
  have hfirst : changesLeft task.spec (store w₀).current = 3 * (RetryBound task.spec).toNat + 5 := by
    rw [h₀]
    change 3 * (RetryBound task.spec - 0).toNat + 5 = _
    rw [Int.sub_zero]
  have hsteps : ∀ c c', Reachable env task w₀ c →
      Pool.Step env (fun _ : Unit => reconcile task.key) c c' → Reachable env task w₀ c' ∧
        changesLeft task.spec (store c'.world).current ≤ changesLeft task.spec (store c.world).current ∧
        (Final task.spec (store c.world).current → Final task.spec (store c'.world).current) := by
    intro c c' hc hstep
    have hc' := hc.tail hstep
    exact ⟨hc', (hinv c' hc').settles (hstore.grows hstep.leads)⟩
  have hturns : ∀ c c', Reachable env task w₀ c → DecisiveTurn env task store c c' →
      Reachable env task w₀ c' ∧
        (changesLeft task.spec (store c'.world).current < changesLeft task.spec (store c.world).current ∨
          Final task.spec (store c'.world).current) ∧
        (Final task.spec (store c.world).current → Final task.spec (store c'.world).current) := by
    rintro _ _ hc ⟨w, w', tr, out, rfl, rfl, hrun, hdecisive⟩
    have hc' := Pool.Reachable.execute (i := ()) hc hrun
    have hkeeps := ((hinv _ hc').settles (hstore.grows hrun.leads)).2
    refine ⟨hc', ?_, hkeeps⟩
    by_cases hfinal : Final task.spec (store w).current
    · exact Or.inr (hkeeps hfinal)
    · exact Or.inl (hstore.executes_decisive (hinv _ hc) (hinv _ hc') hrun hdecisive hfinal)
  obtain ⟨hreach, hsum | hfinal⟩ := hc.descends _ _ _ hsteps hturns .refl
  · rw [Pool.idle_world, hfirst] at hsum
    exact final_of_changesLeft ((hinv c hreach).known (Versioned.current_mem _)) (by omega)
  · exact hfinal

end Runs

/-- Reconciles one after the other, each of them decisive. -/
def PlayDecisively (task : AgentTask) : List Behaviour → Versioned AgentTaskStatus → Prop
  | [], _ => True
  | b :: bs, s =>
    (∀ e ∈ (play (b.respond task) (reconcile task.key) s).1, Decisive s e) ∧
      PlayDecisively task bs (play (b.respond task) (reconcile task.key) s).2.2

instance PlayDecisively.decidable (task : AgentTask) : (bs : List Behaviour) →
    (s : Versioned AgentTaskStatus) → Decidable (PlayDecisively task bs s)
  | [], _ => isTrue trivial
  | b :: bs, s =>
    have := PlayDecisively.decidable task bs (play (b.respond task) (reconcile task.key) s).2.2
    inferInstanceAs (Decidable (_ ∧ _))

theorem PlayDecisively.decides {task : AgentTask} {bs : List Behaviour}
    {s : Versioned AgentTaskStatus} (h : PlayDecisively task bs s) :
    Decides (apiServer task) task id bs.length (Pool.idle s)
      (Pool.idle (Pool.plays (bs.map fun b => b.respond task) (reconcile task.key) s)) := by
  induction bs generalizing s with
  | nil => exact .refl _
  | cons b bs ih =>
    rw [List.length_cons, Nat.add_comm]
    refine Turns.trans (.turn (.refl _) ?_) (ih h.2)
    exact ⟨s, _, _, _, rfl, rfl, Executes.of_play (b.serve_respond task) _ s, h.1⟩

/-- Every attempt loses its pod. -/
theorem task_settles_demo :
    let bs := List.replicate 11 (demoBehaviour .failed "" false)
    let s := Pool.plays (bs.map fun b => b.respond demoTask) (reconcile demoTask.key)
      (Versioned.start .empty)
    Final demoTask.spec s.current ∧ s.current.phase = .failed ∧ s.current.retryCount = 2 := by
  have hdecides : PlayDecisively demoTask (List.replicate 11 (demoBehaviour .failed "" false))
      (Versioned.start .empty) := by decide +kernel
  refine ⟨?_, by decide +kernel, by decide +kernel⟩
  exact (stores_apiServer demoTask).task_settles rfl hdecides.decides (by decide)

end BulletFarm.Operator
