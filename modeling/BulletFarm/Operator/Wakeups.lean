import BulletFarm.Operator.Phases

/-!
# What a Reconcile leaves behind

A Reconcile that leaves its task unfinished must be followed by another one: it
returns an error, asks for a requeue, or has changed the task, which the watch
turns into a Reconcile. Three branches drop the error of their status write and
ask for nothing; they are the only exceptions.
-/

namespace BulletFarm.Operator

open Interaction Program

set_option autoImplicit false

/-- The work queue will run the key again. -/
def Asks : Outcome → Prop
  | .error _ => True
  | .ok result => result.requeue = true ∨ 0 < result.requeueAfter

instance : (out : Outcome) → Decidable (Asks out)
  | .error _ => isTrue trivial
  | .ok result => inferInstanceAs (Decidable (result.requeue = true ∨ 0 < result.requeueAfter))

theorem asks_after {d : Int} (hd : 0 < d) : Asks (.ok { requeueAfter := d }) := Or.inr hd

theorem asks_requeue : Asks (.ok { requeue := true }) := Or.inl rfl

theorem not_asks_nothing : ¬ Asks (.ok {}) := by decide

/-- A Reconcile that found the store `s` and left `s'` loses no wake-up. -/
def Awake (spec : AgentTaskSpec) (s : Versioned AgentTaskStatus) (out : Outcome)
    (s' : Versioned AgentTaskStatus) : Prop :=
  Final spec s'.current ∨ Asks out ∨ s'.versions ≠ s.versions

/-- The runs through a branch that drops the error of its status write and asks
for nothing. -/
inductive DropsWrite : List (Event ApiOp.Resp) → Prop where
  | podSucceeded {key podKey : NamespacedName} {t : AgentTask} {pod : Pod}
      {tr : List (Event ApiOp.Resp)} : t.status.phase = .running → pod.phase = .succeeded →
      DropsWrite (⟨.getTask key, .ok t⟩ :: ⟨.getPod podKey, .ok pod⟩ :: tr)
  | noPullRequest {key : NamespacedName} {t : AgentTask} {tr : List (Event ApiOp.Resp)} :
      t.status.phase ∈ [Phase.completed, .waitingForPR] → t.status.pullRequestURL = "" →
      DropsWrite (⟨.getTask key, .ok t⟩ :: tr)
  | podUnavailable {key podKey : NamespacedName} {t : AgentTask} {r : Except ApiError Pod}
      {tr : List (Event ApiOp.Resp)} : t.status.phase ∈ [Phase.completed, .waitingForPR] →
      t.status.pullRequestURL ≠ "" →
      (∀ pod, r = .ok pod → pod.phase ≠ .running ∨ pod.podIP = "") →
      DropsWrite (⟨.getTask key, .ok t⟩ :: ⟨.getPod podKey, r⟩ :: tr)

/-! ## Results of the handlers -/

theorem postpone_asks (t : AgentTask) (message : String) : (postpone t message).Yields Asks := by
  intro r
  exact asks_after (d := requeueAfter) (by decide)

theorem recordRunning_asks (t : AgentTask) (podName : String) :
    (recordRunning t podName).Yields Asks := by
  intro time
  apply Yields.bind (updateStatus _)
  intro r
  cases r with
  | error err => trivial
  | ok _ =>
    apply Yields.bind
    intro _
    exact asks_after (d := requeueAfter) (by decide)

theorem handlePending_asks (t : AgentTask) : (handlePending t).Yields Asks := by
  intro r
  cases r with
  | error err => exact postpone_asks t _
  | ok agent =>
    intro r
    cases r with
    | error err => trivial
    | ok _ =>
      intro r
      cases r with
      | ok _ => exact recordRunning_asks t _
      | error err =>
        change (if err.reason = .alreadyExists then recordRunning t _
          else postpone t _).Yields Asks
        split
        · exact recordRunning_asks t _
        · exact postpone_asks t _

theorem podFailure_asks (t : AgentTask) (message reason : String) :
    (podFailure t message reason).Yields Asks := by
  unfold podFailure
  apply Yields.bind
  intro _
  apply Yields.bind
  intro _
  exact asks_requeue

theorem podSucceeded_yields (t : AgentTask) :
    (podSucceeded t).Yields (fun out => out = .ok {}) := by
  unfold podSucceeded
  split
  · intro time
    apply Yields.bind (updateStatus _)
    intro _
    apply Yields.bind
    intro _
    rfl
  · rfl

theorem closeUntracked_yields (t : AgentTask) :
    (closeUntracked t).Yields (fun out => out = .ok {}) := by
  unfold closeUntracked
  apply Yields.bind
  intro _
  apply Yields.bind
  intro _
  rfl

theorem closeWithoutPR_yields (t : AgentTask) :
    (closeWithoutPR t).Yields (fun out => out = .ok {}) := by
  unfold closeWithoutPR
  apply Yields.bind
  intro _
  apply Yields.bind
  intro _
  apply Yields.bind
  intro _
  rfl

/-! ## The handlers by the answer to their first read -/

theorem dispatch_running {t : AgentTask} (ht : t.status.phase = .running) :
    dispatch t = handleRunning t := by
  unfold dispatch
  rw [ht]

theorem dispatch_waiting {t : AgentTask} (ht : t.status.phase ∈ [Phase.completed, .waitingForPR]) :
    dispatch t = handleWaitingForPR t := by
  unfold dispatch
  rcases List.mem_pair.mp ht with ht | ht
  · rw [ht]
  · rw [ht]

theorem handleWaitingForPR_noPR {t : AgentTask} (hurl : t.status.pullRequestURL = "") :
    handleWaitingForPR t = closeWithoutPR t := by
  unfold handleWaitingForPR
  rw [if_pos hurl]

theorem handleWaitingForPR_eq {t : AgentTask} (hurl : t.status.pullRequestURL ≠ "") :
    handleWaitingForPR t = .call (.getPod t.podKey) (trackPR t) := by
  unfold handleWaitingForPR
  rw [if_neg hurl]
  rfl

theorem trackPR_unavailable {t : AgentTask} {r : Except ApiError Pod}
    (hr : ∀ pod, r = .ok pod → pod.phase ≠ .running ∨ pod.podIP = "") :
    trackPR t r = closeUntracked t := by
  cases r with
  | error err => rfl
  | ok pod => exact if_pos (hr pod rfl)

theorem trackPR_available {t : AgentTask} {pod : Pod} (hphase : pod.phase = .running)
    (hip : pod.podIP ≠ "") : trackPR t (.ok pod) = (do
      match ← queryPRStatus pod.podIP t.name with
      | .error _ => pure (.ok { requeueAfter := prPollInterval })
      | .ok prStatus => handlePRStatus t pod.podIP prStatus) :=
  if_neg (not_or.mpr ⟨not_not_intro hphase, hip⟩)

theorem unavailable_or_available (r : Except ApiError Pod) :
    (∀ pod, r = .ok pod → pod.phase ≠ .running ∨ pod.podIP = "") ∨
      ∃ pod, r = .ok pod ∧ pod.phase = .running ∧ pod.podIP ≠ "" := by
  by_cases h : ∀ pod, r = .ok pod → pod.phase ≠ .running ∨ pod.podIP = ""
  · exact Or.inl h
  · push Not at h
    exact Or.inr h

theorem handleRunning_eq (t : AgentTask) :
    handleRunning t = .call (.getPod t.podKey) (watchPod t) := rfl

theorem DropsWrite.silent {key : NamespacedName} {tr : List (Event ApiOp.Resp)} {out : Outcome}
    (h : DropsWrite tr) (hreconcile : (reconcile key).Runs tr out) : out = .ok {} := by
  obtain ⟨answer, rest, heq, hrun⟩ := runs_call.mp hreconcile
  cases h with
  | @podSucceeded _ podKey t pod tr ht hp =>
    cases heq
    change (dispatch t).Runs _ out at hrun
    rw [dispatch_running ht, handleRunning_eq] at hrun
    obtain ⟨_, _, heq, hrun⟩ := runs_call.mp hrun
    cases heq
    simp only [watchPod, hp] at hrun
    exact (podSucceeded_yields t).runs hrun
  | @noPullRequest _ t tr ht hurl =>
    cases heq
    change (dispatch t).Runs _ out at hrun
    rw [dispatch_waiting ht, handleWaitingForPR_noPR hurl] at hrun
    exact (closeWithoutPR_yields t).runs hrun
  | @podUnavailable _ podKey t r tr ht hurl hr =>
    cases heq
    change (dispatch t).Runs _ out at hrun
    rw [dispatch_waiting ht, handleWaitingForPR_eq hurl] at hrun
    obtain ⟨_, _, heq, hrun⟩ := runs_call.mp hrun
    cases heq
    rw [trackPR_unavailable hr] at hrun
    exact (closeUntracked_yields t).runs hrun

/-! ## Every other run -/

section Runs

variable {W : Type} {task : AgentTask} {env : Environment ApiOp ApiOp.Resp W}
  {store : W → Versioned AgentTaskStatus} {w w' : W} {n : Nat} {a b : AgentTaskStatus}
  {tr : List (Event ApiOp.Resp)} {out : Outcome}

theorem finishRunning_awake (hstore : Stores task env store)
    (h : Executes env (finishRunning (task.version n b)) w tr out w')
    (ha : (store w).versions[n]? = some a)
    (hb : b.phase ∈ [Phase.running, .failed] ∨ b.phase ≠ a.phase) :
    Awake task.spec (store w) out (store w') := by
  obtain ⟨r, w₁, tr', rfl, hserve, hn⟩ := hstore.executes_call h
  cases r with
  | error err =>
    obtain ⟨_, rfl, _⟩ := hstore.executes_ret hn
    exact Or.inr (Or.inl trivial)
  | ok _ =>
    obtain ⟨hacc, hwrite⟩ := hserve
    change Executes env (if b.phase = .running then _ else if b.phase = .failed then _ else _)
      w₁ tr' out w' at hn
    by_cases hrun : b.phase = .running
    · rw [if_pos hrun] at hn
      obtain ⟨_, rfl, _⟩ := hstore.executes_ret hn
      exact Or.inr (Or.inl (asks_after (d := requeueAfter) (by decide)))
    by_cases hfail : b.phase = .failed
    · rw [if_neg hrun, if_pos hfail] at hn
      obtain ⟨_, rfl, _⟩ := hstore.executes_ret hn
      exact Or.inr (Or.inl asks_requeue)
    · rw [if_neg hrun, if_neg hfail] at hn
      obtain ⟨_, rfl, hsame⟩ := hstore.executes_ret hn
      right
      right
      rw [hsame, hwrite]
      apply Versioned.write_versions_ne
      intro heq
      have hcurrent : (store w).current = a := hacc.current ha
      rcases hb with hb | hb
      · rcases List.mem_pair.mp hb with hb | hb
        · exact hrun hb
        · exact hfail hb
      · apply hb
        change b = (store w).current at heq
        rw [heq, hcurrent]

theorem handleWorkerStatus_awake (hstore : Stores task env store) {podIP : String}
    {status : WorkerStatus}
    (h : Executes env (handleWorkerStatus (task.version n a) podIP status) w tr out w')
    (ha : (store w).versions[n]? = some a) (hrunning : a.phase = .running) :
    Awake task.spec (store w) out (store w') := by
  unfold handleWorkerStatus at h
  dsimp only at h
  split at h
  · obtain ⟨_, _, time, w₁, rfl, hsame₁, h⟩ := hstore.executes_bind (p := now)
      ⟨trivial, fun _ => trivial⟩ h
    obtain ⟨_, _, _, w₂, rfl, hsame₂, h⟩ := hstore.executes_bind (p := finalizeWorker _ _)
      ⟨trivial, fun _ => trivial⟩ h
    obtain ⟨_, _, _, w₃, rfl, hsame₃, h⟩ :=
      hstore.executes_bind (updateAgentStatus_elsewhere _ _) h
    have hsame : store w₃ = store w := by rw [hsame₃, hsame₂, hsame₁]
    rw [← hsame] at ha ⊢
    apply finishRunning_awake hstore h ha
    right
    rw [hrunning]
    exact Phase.noConfusion
  split at h
  · obtain ⟨_, _, _, w₁, rfl, hsame, h⟩ :=
      hstore.executes_bind (updateAgentStatus_elsewhere _ _) h
    rw [← hsame] at ha ⊢
    exact finishRunning_awake hstore h ha (Or.inl (by simp))
  split at h
  · obtain ⟨_, _, _, w₁, rfl, hsame, h⟩ :=
      hstore.executes_bind (updateAgentStatus_elsewhere _ _) h
    rw [← hsame] at ha ⊢
    exact finishRunning_awake hstore h ha (Or.inl (by simp))
  · apply finishRunning_awake hstore h ha
    left
    change a.phase ∈ _
    rw [hrunning]
    decide

theorem watchPod_awake (hstore : Stores task env store) {r : Except ApiError Pod}
    (h : Executes env (watchPod (task.version n a) r) w tr out w')
    (ha : (store w).versions[n]? = some a) (hrunning : a.phase = .running)
    (hr : ∀ pod, r = .ok pod → pod.phase ≠ .succeeded) :
    Awake task.spec (store w) out (store w') := by
  cases r with
  | error err =>
    change Executes env (if err.reason = .notFound then _ else _) w tr out w' at h
    split at h
    · exact Or.inr (Or.inl ((podFailure_asks _ _ _).runs h.runs))
    · obtain ⟨_, rfl, _⟩ := hstore.executes_ret h
      exact Or.inr (Or.inl (asks_after (d := requeueAfter) (by decide)))
  | ok pod =>
    unfold watchPod at h
    dsimp only at h
    split at h
    · exact Or.inr (Or.inl ((podFailure_asks _ _ _).runs h.runs))
    · rename_i hp
      exact absurd hp (hr pod rfl)
    · split at h
      · obtain ⟨_, rfl, _⟩ := hstore.executes_ret h
        exact Or.inr (Or.inl (asks_after (d := requeueAfter) (by decide)))
      · obtain ⟨_, _, answer, w₁, rfl, hsame, h⟩ :=
          hstore.executes_bind (p := queryWorkerStatus _ _) ⟨trivial, fun _ => trivial⟩ h
        cases answer with
        | error err =>
          obtain ⟨_, rfl, _⟩ := hstore.executes_ret h
          exact Or.inr (Or.inl (asks_after (d := requeueAfter) (by decide)))
        | ok status =>
          rw [← hsame] at ha ⊢
          exact handleWorkerStatus_awake hstore h ha hrunning
    · obtain ⟨_, rfl, _⟩ := hstore.executes_ret h
      exact Or.inr (Or.inl (asks_after (d := requeueAfter) (by decide)))

theorem finishWaiting_awake (hstore : Stores task env store)
    (h : Executes env (finishWaiting (task.version n b)) w tr out w')
    (hb : b.phase ∈ [Phase.waitingForPR, .merged, .closed]) :
    Awake task.spec (store w) out (store w') := by
  obtain ⟨r, w₁, tr', rfl, hserve, hn⟩ := hstore.executes_call h
  cases r with
  | error err =>
    obtain ⟨_, rfl, _⟩ := hstore.executes_ret hn
    exact Or.inr (Or.inl trivial)
  | ok _ =>
    obtain ⟨_, hwrite⟩ := hserve
    obtain ⟨_, _, _, w₂, rfl, hsame, hn⟩ :=
      hstore.executes_bind (updateAgentStatus_elsewhere _ _) hn
    change Executes env (if b.phase = .waitingForPR then _ else _) w₂ _ out w' at hn
    by_cases hwait : b.phase = .waitingForPR
    · rw [if_pos hwait] at hn
      obtain ⟨_, rfl, _⟩ := hstore.executes_ret hn
      exact Or.inr (Or.inl (asks_after (d := prPollInterval) (by decide)))
    · rw [if_neg hwait] at hn
      obtain ⟨_, rfl, hsame'⟩ := hstore.executes_ret hn
      left
      rw [hsame', hsame, hwrite, Versioned.write_current]
      simp only [List.mem_cons, List.not_mem_nil, or_false] at hb
      rcases hb with hb | hb | hb
      · exact absurd hb hwait
      · exact Or.inl hb
      · exact Or.inr (Or.inl hb)

theorem handlePRStatus_awake (hstore : Stores task env store) {podIP : String}
    {prStatus : PRStatusResponse}
    (h : Executes env (handlePRStatus (task.version n a) podIP prStatus) w tr out w') :
    Awake task.spec (store w) out (store w') := by
  have hconclude : ∀ (b : AgentTaskStatus) (message : String) (phase : Phase),
      phase ∈ [Phase.waitingForPR, .merged, .closed] →
      Executes env (concludePR (task.version n b) podIP phase message) w tr out w' →
      Awake task.spec (store w) out (store w') := by
    intro b message phase hphase h
    obtain ⟨_, _, _, w₁, rfl, hsame₁, h⟩ := hstore.executes_bind (p := graduateWorker _ _)
      ⟨trivial, fun _ => trivial⟩ h
    obtain ⟨_, _, _, w₂, rfl, hsame₂, h⟩ :=
      hstore.executes_bind (cleanupWorkerPod_elsewhere _ _) h
    rw [← hsame₁, ← hsame₂]
    exact finishWaiting_awake hstore h hphase
  unfold handlePRStatus at h
  dsimp only at h
  split at h
  · exact hconclude _ _ _ (by decide) h
  split at h
  · exact hconclude _ _ _ (by decide) h
  · exact finishWaiting_awake hstore h List.mem_cons_self

theorem trackPR_awake (hstore : Stores task env store) {r : Except ApiError Pod}
    (h : Executes env (trackPR (task.version n a) r) w tr out w')
    (hr : ∃ pod, r = .ok pod ∧ pod.phase = .running ∧ pod.podIP ≠ "") :
    Awake task.spec (store w) out (store w') := by
  obtain ⟨pod, rfl, hp, hip⟩ := hr
  rw [trackPR_available hp hip] at h
  obtain ⟨_, _, answer, w₁, rfl, hsame, h⟩ :=
    hstore.executes_bind (p := queryPRStatus _ _) ⟨trivial, fun _ => trivial⟩ h
  cases answer with
  | error err =>
    obtain ⟨_, rfl, _⟩ := hstore.executes_ret h
    exact Or.inr (Or.inl (asks_after (d := prPollInterval) (by decide)))
  | ok prStatus =>
    rw [← hsame]
    exact handlePRStatus_awake hstore h

theorem TaskInv.current_final {spec : AgentTaskSpec} {s : Versioned AgentTaskStatus}
    (h : TaskInv spec s) (ha : s.versions[n]? = some a) (hfinal : Final spec a) :
    Final spec s.current := by
  have hn : n ≤ s.latest := by
    by_contra hlt
    have hpos := s.length_pos
    unfold Versioned.latest at hlt
    rw [List.getElem?_eq_none (by omega)] at ha
    cases ha
  exact (h.final hn ha s.current_eq_getElem? hfinal).1

theorem retryTask_awake (hstore : Stores task env store)
    (h : Executes env (retryTask (task.version n a)) w tr out w')
    (ha : (store w).versions[n]? = some a) (hfailed : a.phase = .failed) :
    Awake task.spec (store w) out (store w') := by
  obtain ⟨r, w₁, tr', rfl, hserve, hn⟩ := hstore.executes_call h
  cases r with
  | error err =>
    obtain ⟨_, rfl, _⟩ := hstore.executes_ret hn
    exact Or.inr (Or.inl trivial)
  | ok _ =>
    obtain ⟨_, rfl, hsame⟩ := hstore.executes_ret hn
    right
    right
    rw [hsame, hserve.2]
    apply Versioned.write_versions_ne
    intro heq
    have hphase := congrArg AgentTaskStatus.phase heq
    rw [hserve.1.current ha, hfailed] at hphase
    cases hphase

theorem giveUp_awake (hstore : Stores task env store) (hinv : TaskInv task.spec (store w))
    (h : Executes env (giveUp (task.version (store w).seen a)) w tr out w')
    (ha : (store w).versions[(store w).seen]? = some a) (hfailed : a.phase = .failed)
    (hge : maxRetries task.spec ≤ a.retryCount) : Awake task.spec (store w) out (store w') := by
  obtain ⟨r, w₁, tr', rfl, hserve, hn⟩ := hstore.executes_call h
  obtain ⟨_, rfl, hsame⟩ := hstore.executes_ret hn
  left
  have hcall : MayCall true (task.version (store w).seen a) (.updateTaskStatus _) :=
    (giveUp_uses (t := task.version (store w).seen a) hfailed hge).1
  have hinv₁ := hinv.serve hserve ha hcall
  have ha₁ := (hserve.keeps_version ha hcall).2
  rw [hsame]
  exact hinv₁.current_final ha₁ (Or.inr (Or.inr ⟨hfailed, hge⟩))

theorem handleFailed_awake (hstore : Stores task env store) (hinv : TaskInv task.spec (store w))
    (h : Executes env (handleFailed (task.version (store w).seen a)) w tr out w')
    (ha : (store w).versions[(store w).seen]? = some a) (hfailed : a.phase = .failed) :
    Awake task.spec (store w) out (store w') := by
  have hend : ∀ {w tr}, (store w).versions[(store w).seen]? = some a →
      TaskInv task.spec (store w) →
      Executes env (if a.retryCount < maxRetries task.spec then
        retryTask (task.version (store w).seen a)
        else giveUp (task.version (store w).seen a)) w tr out w' →
      Awake task.spec (store w) out (store w') := by
    intro w tr ha hinv h
    by_cases hlt : a.retryCount < maxRetries task.spec
    · rw [if_pos hlt] at h
      exact retryTask_awake hstore h ha hfailed
    · rw [if_neg hlt] at h
      exact giveUp_awake hstore hinv h ha hfailed (Int.not_lt.mp hlt)
  unfold handleFailed at h
  dsimp only at h
  split at h
  · obtain ⟨_, _, _, w₁, rfl, hsame, h⟩ :=
      hstore.executes_bind (cleanupWorkerPod_elsewhere _ _) h
    rw [← hsame] at ha hinv h ⊢
    exact hend ha hinv h
  · exact hend ha hinv h

theorem dispatch_awake (hstore : Stores task env store) (hinv : TaskInv task.spec (store w))
    (h : Executes env (dispatch (task.version (store w).seen a)) w tr out w')
    (ha : (store w).versions[(store w).seen]? = some a) :
    Awake task.spec (store w) out (store w') ∨
      DropsWrite (⟨.getTask task.key, .ok (task.version (store w).seen a)⟩ :: tr) := by
  have hwaiting : a.phase ∈ [Phase.completed, .waitingForPR] →
      Awake task.spec (store w) out (store w') ∨
        DropsWrite (⟨.getTask task.key, .ok (task.version (store w).seen a)⟩ :: tr) := by
    intro hphase
    rw [dispatch_waiting hphase] at h
    by_cases hurl : a.pullRequestURL = ""
    · exact Or.inr (.noPullRequest hphase hurl)
    · rw [handleWaitingForPR_eq hurl] at h
      obtain ⟨r, w₁, tr', rfl, hserve, hn⟩ := hstore.executes_call h
      rcases unavailable_or_available r with hr | hr
      · exact Or.inr (.podUnavailable hphase hurl hr)
      · left
        have hsame : store w₁ = store w := hserve
        rw [← hsame]
        exact trackPR_awake hstore hn hr
  cases hphase : a.phase with
  | unset =>
    left
    have hasks : (dispatch (task.version (store w).seen a)).Yields Asks := by
      unfold dispatch
      simp only [version_status, hphase]
      intro r
      cases r with
      | error err => trivial
      | ok _ => exact asks_requeue
    exact Or.inr (Or.inl (hasks.runs h.runs))
  | pending =>
    left
    have heq : dispatch (task.version (store w).seen a) =
        handlePending (task.version (store w).seen a) := by
      unfold dispatch
      simp only [version_status, hphase]
    rw [heq] at h
    exact Or.inr (Or.inl ((handlePending_asks _).runs h.runs))
  | running =>
    rw [dispatch_running hphase, handleRunning_eq] at h
    obtain ⟨r, w₁, tr', rfl, hserve, hn⟩ := hstore.executes_call h
    have hsame : store w₁ = store w := hserve
    by_cases hr : ∃ pod, r = .ok pod ∧ pod.phase = .succeeded
    · obtain ⟨pod, rfl, hpod⟩ := hr
      exact Or.inr (.podSucceeded hphase hpod)
    · left
      rw [← hsame] at ha ⊢
      rw [← hsame] at hn
      exact watchPod_awake hstore hn ha hphase fun pod hpod hp => hr ⟨pod, hpod, hp⟩
  | completed => exact hwaiting (by simp [hphase])
  | waitingForPR => exact hwaiting (by simp [hphase])
  | merged =>
    left
    left
    have heq : dispatch (task.version (store w).seen a) = .ret (.ok {}) := by
      unfold dispatch
      simp only [version_status, hphase]
      rfl
    rw [heq] at h
    rw [(hstore.executes_ret h).2.2]
    exact hinv.current_final ha (Or.inl hphase)
  | closed =>
    left
    left
    have heq : dispatch (task.version (store w).seen a) = .ret (.ok {}) := by
      unfold dispatch
      simp only [version_status, hphase]
      rfl
    rw [heq] at h
    rw [(hstore.executes_ret h).2.2]
    exact hinv.current_final ha (Or.inr (Or.inl hphase))
  | failed =>
    left
    have heq : dispatch (task.version (store w).seen a) =
        handleFailed (task.version (store w).seen a) := by
      unfold dispatch
      simp only [version_status, hphase]
    rw [heq] at h
    exact handleFailed_awake hstore hinv h ha hphase
  | unknown text => exact absurd hphase (hinv.known (List.mem_of_getElem? ha) text)

/-- A Reconcile from a reachable state loses its wake-up exactly when it goes
through one of the three branches, its status write is not applied, and the
persisted task is not final. -/
theorem Stores.awake_iff (hstore : Stores task env store) {w₀ : W}
    (h₀ : store w₀ = Versioned.start .empty) {c : Pool Unit ApiOp ApiOp.Resp Outcome W}
    (hc : Reachable env task w₀ c) (h : Executes env (reconcile task.key) c.world tr out w') :
    Awake task.spec (store c.world) out (store w') ↔
      ¬ (DropsWrite tr ∧ (store w').versions = (store c.world).versions ∧
        ¬ Final task.spec (store c.world).current) := by
  have hinv := hstore.taskInv h₀ hc
  constructor
  · rintro hawake ⟨hdrops, hsame, hfinal⟩
    rcases hawake with hawake | hawake | hawake
    · rw [Versioned.current_congr hsame] at hawake
      exact hfinal hawake
    · rw [hdrops.silent h.runs] at hawake
      exact not_asks_nothing hawake
    · exact hawake hsame
  · intro hnot
    rcases hstore.executes_reconcile h with ⟨err, rfl, _, _⟩ |
      ⟨n, a, w₁, tr', rfl, hserves, hread, hrest⟩
    · exact Or.inr (Or.inl trivial)
    · have hinv₁ : TaskInv task.spec (store w₁) := by
        rw [hread]
        exact hinv.read hserves.1
      have hseen : (store w₁).seen = n := by rw [hread, Versioned.read_seen]
      have ha : (store w₁).versions[(store w₁).seen]? = some a := by
        rw [hseen, hread]
        exact hserves.2
      have hversions : (store w₁).versions = (store c.world).versions := by
        rw [hread, Versioned.read_versions]
      rw [← hseen] at hrest hnot
      rcases dispatch_awake hstore hinv₁ hrest ha with hawake | hdrops
      · unfold Awake at hawake ⊢
        rw [hversions] at hawake
        exact hawake
      · by_cases hsame : (store w').versions = (store c.world).versions
        · by_cases hfinal : Final task.spec (store c.world).current
          · left
            rw [Versioned.current_congr hsame]
            exact hfinal
          · exact absurd ⟨hdrops, hsame, hfinal⟩ hnot
        · exact Or.inr (Or.inr hsame)

/-- The worker's pod has run to its end, and the API server takes no writes. -/
def demoSucceeded : Behaviour :=
  { demoCluster false with pod := fun _ => .ok (demoPod .succeeded), writes := false }

/-- The task is Running, its pod has succeeded and the status write fails: the
Reconcile returns an empty result and leaves the task Running. -/
theorem lost_wakeup :
    let s := Pool.plays ((List.replicate 2 (demoCluster false)).map fun b => b.respond demoTask)
      (reconcile demoTask.key) (Versioned.start .empty)
    Reachable (apiServer demoTask) demoTask (Versioned.start .empty) (Pool.idle s) ∧
      ∃ tr out s', Executes (apiServer demoTask) (reconcile demoTask.key) s tr out s' ∧
        ¬ Awake demoTask.spec s out s' := by
  refine ⟨reachable_plays demoTask _, _, _, _,
    Executes.of_play (demoSucceeded.serve_respond demoTask) _ _, ?_⟩
  unfold Awake
  decide

/-- The same Reconcile with its write going through. -/
theorem kept_wakeup :
    let s := Pool.plays ((List.replicate 2 (demoCluster false)).map fun b => b.respond demoTask)
      (reconcile demoTask.key) (Versioned.start .empty)
    let b : Behaviour := { demoSucceeded with writes := true }
    Awake demoTask.spec s (play (b.respond demoTask) (reconcile demoTask.key) s).2.1
      (play (b.respond demoTask) (reconcile demoTask.key) s).2.2 := by
  intro s b
  apply (Stores.awake_iff (stores_apiServer demoTask) rfl
    (reachable_plays demoTask (List.replicate 2 (demoCluster false)))
    (Executes.of_play (b.serve_respond demoTask) _ _)).mpr
  rintro ⟨_, hsame, _⟩
  revert hsame
  decide

end Runs

end BulletFarm.Operator
