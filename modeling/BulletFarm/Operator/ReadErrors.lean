import BulletFarm.Operator.Wakeups

/-!
# Reads that fail for a passing reason

When a read that a handler decides on fails, and not because the object is
gone, the Reconcile should leave the task as it was and come back later. All
handlers do but one: `handleWaitingForPR` takes every error of its pod read for
a lost pod.
-/

namespace BulletFarm.Operator

open Interaction Program

set_option autoImplicit false

/-- A run in which a read that decides has failed: the Agent in `handlePending`,
the pod in `handleRunning` and `handleWaitingForPR`, or the answer of the worker. -/
inductive DecisionFails : List (Event ApiOp.Resp) → Prop where
  | agent {key agentKey : NamespacedName} {t : AgentTask} {err : ApiError}
      {tr : List (Event ApiOp.Resp)} : t.status.phase = .pending → err.reason ≠ .notFound →
      DecisionFails (⟨.getTask key, .ok t⟩ :: ⟨.getAgent agentKey, .error err⟩ :: tr)
  | pod {key podKey : NamespacedName} {t : AgentTask} {err : ApiError}
      {tr : List (Event ApiOp.Resp)} :
      t.status.phase ∈ [Phase.running, .completed, .waitingForPR] → err.reason ≠ .notFound →
      DecisionFails (⟨.getTask key, .ok t⟩ :: ⟨.getPod podKey, .error err⟩ :: tr)
  | status {tr : List (Event ApiOp.Resp)} {url : WorkerURL} {reply : Except String HttpReply}
      {err : QueryError} : ⟨.httpGet url, reply⟩ ∈ tr → url.endpoint = .status →
      decodeReply {} WorkerStatus.set reply = .error err → DecisionFails tr
  | prStatus {tr : List (Event ApiOp.Resp)} {url : WorkerURL} {reply : Except String HttpReply}
      {err : QueryError} : ⟨.httpGet url, reply⟩ ∈ tr → url.endpoint = .prStatus →
      decodeReply {} PRStatusResponse.set reply = .error err → DecisionFails tr

/-- The read that has failed is the pod read of `handleWaitingForPR`. -/
def UntrackedRead (tr : List (Event ApiOp.Resp)) : Prop :=
  ∃ key podKey t err rest, t.status.phase ∈ [Phase.completed, .waitingForPR] ∧
    tr = ⟨.getTask key, .ok t⟩ :: ⟨.getPod podKey, .error err⟩ :: rest

/-- The Reconcile has done no harm and comes back. -/
structure Unharmed (s s' : Versioned AgentTaskStatus) (tr : List (Event ApiOp.Resp))
    (out : Outcome) : Prop where
  phase : s'.current.phase = s.current.phase
  retryCount : s'.current.retryCount = s.current.retryCount
  pullRequestURL : s'.current.pullRequestURL = s.current.pullRequestURL
  no_delete : ∀ e ∈ tr, ∀ key, e.1 ≠ .deletePod key
  asks : Asks out

theorem DecisionFails.read {key : NamespacedName} {t : AgentTask} {tr : List (Event ApiOp.Resp)}
    (h : DecisionFails (⟨.getTask key, .ok t⟩ :: tr)) (hpoll : ∀ e ∈ tr, MayCall false t e.1) :
    (t.status.phase = .pending ∧ ∃ agentKey err rest, tr = ⟨.getAgent agentKey, .error err⟩ :: rest) ∨
    (t.status.phase ∈ [Phase.running, .completed, .waitingForPR] ∧ ∃ podKey err rest,
      err.reason ≠ .notFound ∧ tr = ⟨.getPod podKey, .error err⟩ :: rest) := by
  have hnone : ∀ url reply, (⟨.httpGet url, reply⟩ : Event ApiOp.Resp) ∉
      ⟨.getTask key, .ok t⟩ :: tr := by
    intro url reply hmem
    rcases List.mem_cons.mp hmem with heq | hmem
    · cases heq
    · exact Bool.noConfusion (hpoll _ hmem).1
  cases h with
  | agent ht herr => exact Or.inl ⟨ht, _, _, _, rfl⟩
  | pod ht herr => exact Or.inr ⟨ht, _, _, _, herr, rfl⟩
  | status hmem _ _ => exact absurd hmem (hnone _ _)
  | prStatus hmem _ _ => exact absurd hmem (hnone _ _)

section Runs

variable {W : Type} {task : AgentTask} {env : Environment ApiOp ApiOp.Resp W}
  {store : W → Versioned AgentTaskStatus} {w w' : W} {n : Nat} {a : AgentTaskStatus}
  {tr : List (Event ApiOp.Resp)} {out : Outcome}

theorem unharmed_of_current {s s' : Versioned AgentTaskStatus} (hcurrent : s'.current = s.current)
    (hdelete : ∀ e ∈ tr, ∀ key, e.1 ≠ .deletePod key) (hasks : Asks out) :
    Unharmed s s' tr out :=
  ⟨by rw [hcurrent], by rw [hcurrent], by rw [hcurrent], hdelete, hasks⟩

theorem unharmed_of_message {s s' : Versioned AgentTaskStatus} {message : String}
    (hacc : s.Accepts n) (ha : s.versions[n]? = some a)
    (hwrite : s' = s.write { a with message := message })
    (hdelete : ∀ e ∈ tr, ∀ key, e.1 ≠ .deletePod key) (hasks : Asks out) :
    Unharmed s s' tr out := by
  have hcurrent := hacc.current ha
  refine ⟨?_, ?_, ?_, hdelete, hasks⟩
  · rw [hwrite, Versioned.write_current, hcurrent]
  · rw [hwrite, Versioned.write_current, hcurrent]
  · rw [hwrite, Versioned.write_current, hcurrent]

/-- The question to the worker is the only one in its handler's run. -/
theorem DecisionFails.polled {key podKey : NamespacedName} {t : AgentTask} {pod : Pod}
    {url : WorkerURL} {reply : Except String HttpReply} {tr : List (Event ApiOp.Resp)}
    (h : DecisionFails (⟨.getTask key, .ok t⟩ :: ⟨.getPod podKey, .ok pod⟩ ::
      ⟨.httpGet url, reply⟩ :: tr)) (hpoll : ∀ e ∈ tr, MayCall false t e.1) :
    (url.endpoint = .status ∧ ∃ err, decodeReply {} WorkerStatus.set reply = .error err) ∨
    (url.endpoint = .prStatus ∧ ∃ err, decodeReply {} PRStatusResponse.set reply = .error err) := by
  have honly : ∀ url' reply', (⟨.httpGet url', reply'⟩ : Event ApiOp.Resp) ∈
      ⟨.getTask key, .ok t⟩ :: ⟨.getPod podKey, .ok pod⟩ :: ⟨.httpGet url, reply⟩ :: tr →
      url' = url ∧ HEq reply' reply := by
    intro url' reply' hmem
    rcases List.mem_cons.mp hmem with heq | hmem
    · cases heq
    rcases List.mem_cons.mp hmem with heq | hmem
    · cases heq
    rcases List.mem_cons.mp hmem with heq | hmem
    · cases heq
      exact ⟨rfl, HEq.rfl⟩
    · exact Bool.noConfusion (hpoll _ hmem).1
  cases h with
  | status hmem hurl hdecode =>
    obtain ⟨rfl, heq⟩ := honly _ _ hmem
    cases heq
    exact Or.inl ⟨hurl, _, hdecode⟩
  | prStatus hmem hurl hdecode =>
    obtain ⟨rfl, heq⟩ := honly _ _ hmem
    cases heq
    exact Or.inr ⟨hurl, _, hdecode⟩

theorem no_delete (key : NamespacedName) {t : AgentTask}
    (hcalls : ∀ e ∈ tr, MayCall true t e.1)
    (ht : t.status.phase ∉ [Phase.completed, .waitingForPR, .failed]) :
    ∀ e ∈ (⟨.getTask key, .ok t⟩ :: tr : List (Event ApiOp.Resp)), ∀ podKey, e.1 ≠ .deletePod podKey := by
  intro e he podKey heq
  rcases List.mem_cons.mp he with rfl | he
  · cases heq
  · have hcall := hcalls e he
    rw [heq] at hcall
    exact ht hcall

theorem handlePending_unharmed (hstore : Stores task env store)
    (h : Executes env (handlePending (task.version n a)) w tr out w')
    (ha : (store w).versions[n]? = some a) (hpending : a.phase = .pending)
    (hfail : DecisionFails (⟨.getTask task.key, .ok (task.version n a)⟩ :: tr)) :
    Unharmed (store w) (store w') (⟨.getTask task.key, .ok (task.version n a)⟩ :: tr) out := by
  have hpoll : ∀ e ∈ tr, MayCall false (task.version n a) e.1 :=
    (handlePending_uses hpending).runs h.runs
  have hdelete := no_delete task.key ((handlePending_uses hpending).runs h.runs)
    (by simp [hpending])
  obtain ⟨r, w₁, tr₁, rfl, hserve, hn⟩ := hstore.executes_call h
  have hsame₁ : store w₁ = store w := hserve
  rcases hfail.read hpoll with ⟨_, agentKey, err, rest, heq⟩ | ⟨_, podKey, err, rest, _, heq⟩
  · cases heq
    obtain ⟨r, w₂, tr₂, rfl, hserve₂, hn⟩ := hstore.executes_call hn
    obtain ⟨rfl, rfl, hsame₂⟩ := hstore.executes_ret hn
    rw [hsame₁] at hserve₂
    rw [hsame₂]
    have hasks : Asks (.ok { requeueAfter := requeueAfter }) := Or.inr (by decide)
    cases r with
    | ok _ => exact unharmed_of_message hserve₂.1 ha hserve₂.2 hdelete hasks
    | error err =>
      rcases hserve₂ with hsame | ⟨hacc, hwrite⟩
      · exact unharmed_of_current (by rw [hsame]) hdelete hasks
      · exact unharmed_of_message hacc ha hwrite hdelete hasks
  · cases heq

theorem handleRunning_unharmed (hstore : Stores task env store)
    (h : Executes env (handleRunning (task.version n a)) w tr out w') (hrunning : a.phase = .running)
    (hfail : DecisionFails (⟨.getTask task.key, .ok (task.version n a)⟩ :: tr)) :
    Unharmed (store w) (store w') (⟨.getTask task.key, .ok (task.version n a)⟩ :: tr) out := by
  have hdelete := no_delete task.key ((handleRunning_uses hrunning).runs h.runs)
    (by simp [hrunning])
  have hasks : Asks (.ok { requeueAfter := requeueAfter }) := Or.inr (by decide)
  rw [handleRunning_eq] at h
  obtain ⟨r, w₁, tr₁, rfl, hserve, hn⟩ := hstore.executes_call h
  have hsame₁ : store w₁ = store w := hserve
  have hquiet : ∀ {p : OperatorM Outcome}, Executes env p w₁ tr₁ out w' →
      p.Uses (MayCall false (task.version n a)) → ∃ err, r = .error err ∧ err.reason ≠ .notFound := by
    intro p hp huses
    have hcalls : ∀ e ∈ (⟨.getPod (task.version n a).podKey, r⟩ :: tr₁ :
        List (Event ApiOp.Resp)), MayCall false (task.version n a) e.1 := by
      intro e he
      rcases List.mem_cons.mp he with rfl | he
      · trivial
      · exact huses.runs hp.runs e he
    rcases hfail.read hcalls with ⟨hpending, _⟩ | ⟨_, podKey, err, rest, herr, heq⟩
    · rw [version_status, hrunning] at hpending
      cases hpending
    · cases heq
      exact ⟨err, rfl, herr⟩
  cases r with
  | error err =>
    change Executes env (if err.reason = .notFound then _ else _) w₁ tr₁ out w' at hn
    by_cases hreason : err.reason = .notFound
    · rw [if_pos hreason] at hn
      obtain ⟨err', heq, herr⟩ := hquiet hn (podFailure_uses hrunning _ _ (by decide))
      cases heq
      exact absurd hreason herr
    · rw [if_neg hreason] at hn
      obtain ⟨rfl, rfl, hsame⟩ := hstore.executes_ret hn
      exact unharmed_of_current (by rw [hsame, hsame₁]) hdelete hasks
  | ok pod =>
    unfold watchPod at hn
    dsimp only at hn
    split at hn
    · obtain ⟨err, heq, _⟩ := hquiet hn (podFailure_uses hrunning _ _ (by decide))
      cases heq
    · obtain ⟨err, heq, _⟩ := hquiet hn (podSucceeded_uses hrunning)
      cases heq
    · split at hn
      · obtain ⟨rfl, rfl, hsame⟩ := hstore.executes_ret hn
        exact unharmed_of_current (by rw [hsame, hsame₁]) hdelete hasks
      · obtain ⟨reply, w₂, tr₂, rfl, hserve₂, hn⟩ := hstore.executes_call hn
        have hsame₂ : store w₂ = store w₁ := hserve₂
        dsimp only [Program.bind, pure_eq] at hn
        cases hdecode : decodeReply {} WorkerStatus.set reply with
        | error err =>
          rw [hdecode] at hn
          obtain ⟨rfl, rfl, hsame⟩ := hstore.executes_ret hn
          exact unharmed_of_current (by rw [hsame, hsame₂, hsame₁]) hdelete hasks
        | ok status =>
          rw [hdecode] at hn
          have hpoll : ∀ e ∈ tr₂, MayCall false (task.version n a) e.1 :=
            (handleWorkerStatus_uses hrunning _ _).runs hn.runs
          rcases hfail.polled hpoll with ⟨_, err, herr⟩ | ⟨hurl, _⟩
          · rw [hdecode] at herr
            cases herr
          · cases hurl
    · obtain ⟨rfl, rfl, hsame⟩ := hstore.executes_ret hn
      exact unharmed_of_current (by rw [hsame, hsame₁]) hdelete hasks

theorem trackPR_unharmed (hstore : Stores task env store) {pod : Pod}
    (h : Executes env (trackPR (task.version n a) (.ok pod)) w tr out w')
    (ha : a.phase ∈ [Phase.completed, .waitingForPR])
    (hfail : DecisionFails (⟨.getTask task.key, .ok (task.version n a)⟩ ::
      ⟨.getPod (task.version n a).podKey, .ok pod⟩ :: tr)) :
    Unharmed (store w) (store w') (⟨.getTask task.key, .ok (task.version n a)⟩ ::
      ⟨.getPod (task.version n a).podKey, .ok pod⟩ :: tr) out := by
  unfold trackPR at h
  dsimp only at h
  split at h
  · have hcalls : ∀ e ∈ (⟨.getPod (task.version n a).podKey, .ok pod⟩ :: tr :
        List (Event ApiOp.Resp)),
        MayCall false (task.version n a) e.1 := by
      intro e he
      rcases List.mem_cons.mp he with rfl | he
      · trivial
      · exact (closeUntracked_uses ha).runs h.runs e he
    rcases hfail.read hcalls with ⟨_, _, _, _, heq⟩ | ⟨_, _, _, _, _, heq⟩
    · cases heq
    · cases heq
  · obtain ⟨reply, w₁, tr₁, rfl, hserve, hn⟩ := hstore.executes_call h
    have hsame₁ : store w₁ = store w := hserve
    dsimp only [Program.bind, pure_eq] at hn
    cases hdecode : decodeReply {} PRStatusResponse.set reply with
    | error err =>
      rw [hdecode] at hn
      obtain ⟨rfl, rfl, hsame⟩ := hstore.executes_ret hn
      apply unharmed_of_current
      · rw [hsame, hsame₁]
      · intro e he key heq
        simp only [List.mem_cons, List.not_mem_nil, or_false] at he
        rcases he with rfl | rfl | rfl
        · cases heq
        · cases heq
        · cases heq
      · exact Or.inr (by decide)
    | ok prStatus =>
      rw [hdecode] at hn
      have hpoll : ∀ e ∈ tr₁, MayCall false (task.version n a) e.1 :=
        (handlePRStatus_uses ha _ _).runs hn.runs
      rcases hfail.polled hpoll with ⟨hurl, _⟩ | ⟨_, err, herr⟩
      · cases hurl
      · rw [hdecode] at herr
        cases herr

theorem dispatch_unharmed (hstore : Stores task env store)
    (h : Executes env (dispatch (task.version n a)) w tr out w')
    (ha : (store w).versions[n]? = some a)
    (hfail : DecisionFails (⟨.getTask task.key, .ok (task.version n a)⟩ :: tr))
    (hread : ¬ UntrackedRead (⟨.getTask task.key, .ok (task.version n a)⟩ :: tr)) :
    Unharmed (store w) (store w') (⟨.getTask task.key, .ok (task.version n a)⟩ :: tr) out := by
  have hquiet : (dispatch (task.version n a)).Uses (MayCall false (task.version n a)) →
      a.phase ∉ [Phase.pending, .running, .completed, .waitingForPR] →
      Unharmed (store w) (store w') (⟨.getTask task.key, .ok (task.version n a)⟩ :: tr) out := by
    intro huses hphase
    simp only [List.mem_cons, List.not_mem_nil, or_false, not_or] at hphase
    rcases hfail.read (huses.runs h.runs) with ⟨hp, _⟩ | ⟨hp, _⟩
    · exact absurd hp hphase.1
    · simp only [List.mem_cons, List.not_mem_nil, or_false] at hp
      tauto
  have hwaiting : a.phase ∈ [Phase.completed, .waitingForPR] →
      Unharmed (store w) (store w') (⟨.getTask task.key, .ok (task.version n a)⟩ :: tr) out := by
    intro hphase
    rw [dispatch_waiting hphase] at h
    by_cases hurl : a.pullRequestURL = ""
    · rw [handleWaitingForPR_noPR hurl] at h
      have hcalls : ∀ e ∈ tr, MayCall false (task.version n a) e.1 :=
        (closeWithoutPR_uses hphase).runs h.runs
      obtain ⟨r, w₁, tr₁, rfl, _, _⟩ := hstore.executes_call h
      rcases hfail.read hcalls with ⟨_, _, _, _, heq⟩ | ⟨_, _, _, _, _, heq⟩
      · cases heq
      · cases heq
    · rw [handleWaitingForPR_eq hurl] at h
      obtain ⟨r, w₁, tr₁, rfl, hserve, hn⟩ := hstore.executes_call h
      have hsame : store w₁ = store w := hserve
      cases r with
      | error err => exact absurd ⟨_, _, _, _, _, hphase, rfl⟩ hread
      | ok pod =>
        rw [← hsame]
        exact trackPR_unharmed hstore hn hphase hfail
  cases hphase : a.phase with
  | unset =>
    apply hquiet
    · unfold dispatch
      simp only [version_status, hphase]
      refine ⟨mayCall_withStatus ?_, fun r => by cases r <;> trivial⟩
      simp only [MayWrite, version_status, hphase]
    · simp [hphase]
  | pending =>
    have heq : dispatch (task.version n a) = handlePending (task.version n a) := by
      unfold dispatch
      simp only [version_status, hphase]
    rw [heq] at h
    exact handlePending_unharmed hstore h ha hphase hfail
  | running =>
    rw [dispatch_running hphase] at h
    exact handleRunning_unharmed hstore h hphase hfail
  | completed => exact hwaiting (by simp [hphase])
  | waitingForPR => exact hwaiting (by simp [hphase])
  | merged =>
    apply hquiet
    · unfold dispatch
      simp only [version_status, hphase]
      trivial
    · simp [hphase]
  | closed =>
    apply hquiet
    · unfold dispatch
      simp only [version_status, hphase]
      trivial
    · simp [hphase]
  | failed =>
    apply hquiet
    · unfold dispatch
      simp only [version_status, hphase]
      exact handleFailed_uses hphase
    · simp [hphase]
  | unknown text =>
    apply hquiet
    · unfold dispatch
      simp only [version_status, hphase]
      refine ⟨mayCall_withStatus ?_, fun _ => trivial⟩
      simp only [MayWrite, version_status, hphase]
    · simp [hphase]

/-- A Reconcile with a failed deciding read does no harm and comes back, exactly
when the read is not the pod read of `handleWaitingForPR`. -/
theorem Stores.unharmed_iff (hstore : Stores task env store)
    (h : Executes env (reconcile task.key) w tr out w') (hfail : DecisionFails tr) :
    Unharmed (store w) (store w') tr out ↔ ¬ UntrackedRead tr := by
  constructor
  · rintro hunharmed ⟨key, podKey, t, err, rest, ht, rfl⟩
    obtain ⟨r, tr', heq, hrun⟩ := runs_call.mp h.runs
    cases heq
    change (dispatch t).Runs _ out at hrun
    rw [dispatch_waiting ht] at hrun
    by_cases hurl : t.status.pullRequestURL = ""
    · rw [handleWaitingForPR_noPR hurl] at hrun
      obtain ⟨_, _, heq, _⟩ := runs_call.mp hrun
      cases heq
    · rw [handleWaitingForPR_eq hurl] at hrun
      obtain ⟨_, _, heq, hrun⟩ := runs_call.mp hrun
      cases heq
      have hout := (closeUntracked_yields t).runs hrun
      have hasks := hunharmed.asks
      rw [hout] at hasks
      exact not_asks_nothing hasks
  · intro hread
    rcases hstore.executes_reconcile h with ⟨err, rfl, rfl, _⟩ |
      ⟨n, a, w₁, tr', rfl, hserves, hw₁, hrest⟩
    · cases hfail with
      | status hmem _ _ =>
        cases List.mem_singleton.mp hmem
      | prStatus hmem _ _ =>
        cases List.mem_singleton.mp hmem
    · have ha : (store w₁).versions[n]? = some a := by
        rw [hw₁]
        exact hserves.2
      have hunharmed := dispatch_unharmed hstore hrest ha hfail hread
      rw [hw₁] at hunharmed
      exact ⟨hunharmed.phase, hunharmed.retryCount, hunharmed.pullRequestURL,
        hunharmed.no_delete, hunharmed.asks⟩

end Runs

/-- The API server does not answer the pod read. -/
def demoUnreachable : Behaviour :=
  { demoCluster false with pod := fun _ => .error ⟨.other, "etcdserver: request timed out"⟩ }

/-- One failed read of the pod closes a task that waits for its pull request. -/
theorem closed_by_read_error :
    let s := Pool.plays ((List.replicate 3 (demoCluster false)).map fun b => b.respond demoTask)
      (reconcile demoTask.key) (Versioned.start .empty)
    Reachable (apiServer demoTask) demoTask (Versioned.start .empty) (Pool.idle s) ∧
      ∃ tr out s', Executes (apiServer demoTask) (reconcile demoTask.key) s tr out s' ∧
        DecisionFails tr ∧ s.current.phase = .waitingForPR ∧ s'.current.phase = .closed ∧
        ¬ Unharmed s s' tr out := by
  intro s
  refine ⟨reachable_plays demoTask _, _, _, _,
    Executes.of_play (demoUnreachable.serve_respond demoTask) _ _, ?_, by decide, by decide, ?_⟩
  · exact .pod (by decide) (by decide)
  · intro h
    have hphase := h.phase
    revert hphase
    decide

/-- The same failure while the task is Running does no harm. -/
theorem running_read_error :
    let s := Pool.plays ((List.replicate 2 (demoCluster false)).map fun b => b.respond demoTask)
      (reconcile demoTask.key) (Versioned.start .empty)
    let run := play (demoUnreachable.respond demoTask) (reconcile demoTask.key) s
    Unharmed s run.2.2 run.1 run.2.1 := by
  intro s run
  have hexec : Executes (apiServer demoTask) (reconcile demoTask.key) s run.1 run.2.1 run.2.2 :=
    Executes.of_play (demoUnreachable.serve_respond demoTask) _ _
  apply (Stores.unharmed_iff (stores_apiServer demoTask) hexec (.pod (by decide) (by decide))).mpr
  rintro ⟨key, podKey, t, err, rest, ht, heq⟩
  have hread : ∃ rest, run.1 =
      ⟨.getTask demoTask.key, .ok (demoTask.version s.latest s.current)⟩ :: rest := ⟨_, rfl⟩
  obtain ⟨rest', hread⟩ := hread
  rw [hread] at heq
  injection heq with hhead _
  cases hhead
  revert ht
  decide

end BulletFarm.Operator
