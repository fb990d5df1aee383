import BulletFarm.Operator.Cluster
import BulletFarm.Operator.Wakeups

/-!
# A merged pull request

Once the operator has been told that the pull request is merged, the task should
end as Merged. The Reconcile that is told deletes the pod before it writes the
status, so the next one may find the pod gone and close the task; as long as
that does not happen, no version written later is Closed.
-/

namespace BulletFarm.Operator

open Interaction Program

set_option autoImplicit false

variable {E : Type} {task : AgentTask} {env : Environment ApiOp ApiOp.Resp E}

/-- A history: the number of versions when the operator was first told of the
merge, and the status it has read if that was its last call. -/
structure Watch where
  mergedAt : Option Nat := none
  reading : Option AgentTaskStatus := none

/-- The operator is told that the pull request is merged. -/
def ToldMerged : (o : ApiOp) → o.Resp → Bool
  | .httpGet url, reply =>
    decide (url.endpoint = .prStatus) &&
      (match decodeReply {} PRStatusResponse.set reply with
        | .ok s => s.merged
        | .error _ => false)
  | _, _ => false

def watch (m : Watch) (c : Cluster E) (o : ApiOp) (r : o.Resp) : Watch where
  mergedAt := if ToldMerged o r then some (m.mergedAt.getD c.store.versions.length) else m.mergedAt
  reading :=
    match o, r with
    | .getTask _, .ok t => some t.status
    | _, _ => none

/-- Completed or WaitingForPR. -/
def Waiting (s : AgentTaskStatus) : Prop := s.phase ∈ [Phase.completed, .waitingForPR]

instance (s : AgentTaskStatus) : Decidable (Waiting s) := inferInstanceAs (Decidable (_ ∈ _))

/-- The worker's pod is there and can be asked. -/
def Up : Except ApiError Pod → Prop
  | .ok pod => pod.phase = .running ∧ pod.podIP ≠ ""
  | .error _ => False

instance : (r : Except ApiError Pod) → Decidable (Up r)
  | .ok pod => inferInstanceAs (Decidable (pod.phase = .running ∧ pod.podIP ≠ ""))
  | .error _ => isFalse id

theorem Up.pod {r : Except ApiError Pod} (h : Up r) :
    ∃ pod : Pod, r = .ok pod ∧ pod.phase = .running ∧ pod.podIP ≠ "" := by
  cases r with
  | error err => exact h.elim
  | ok pod => exact ⟨pod, rfl, h⟩

/-- The operator has been told of the merge and has just read a waiting task. -/
def Watch.Deciding (m : Watch) : Prop := m.mergedAt ≠ none ∧ ∃ s ∈ m.reading, Waiting s

instance (m : Watch) : Decidable m.Deciding := inferInstanceAs (Decidable (_ ∧ _))

/-- After the operator has been told of the merge, `handleWaitingForPR` finds its pod. -/
def FindsPod (w : Cluster E × Watch) : (o : ApiOp) → o.Resp → Cluster E × Watch → Prop
  | .getPod _, r, _ => w.2.Deciding → Up r
  | _, _, _ => True

instance (w : Cluster E × Watch) (o : ApiOp) (r : o.Resp) (w' : Cluster E × Watch) :
    Decidable (FindsPod w o r w') :=
  match o, r with
  | .getPod _, r => inferInstanceAs (Decidable (w.2.Deciding → Up r))
  | .getTask _, _ | .getAgent _, _ | .listTasks _, _ | .setControllerReference _ _, _
  | .createPod _, _ | .deletePod _, _ | .updateTaskStatus _, _ | .updateAgentStatus _, _
  | .httpGet _, _ | .httpPost _, _ | .now, _ => isTrue trivial

/-- The cluster of one task, watched, with the pod found when it matters. -/
abbrev mergeEnv (task : AgentTask) (env : Environment ApiOp ApiOp.Resp E) :
    Environment ApiOp ApiOp.Resp (Cluster E × Watch) :=
  ((cluster task env).watched watch).restrict FindsPod

/-- The task waits for a pull request or has waited for one. -/
def Tracked (s : AgentTaskStatus) : Prop :=
  s.phase ∈ [Phase.completed, .waitingForPR, .merged, .closed] ∧ s.pullRequestURL ≠ ""

theorem StatusMove.tracked {spec : AgentTaskSpec} {a b : AgentTaskStatus}
    (h : StatusMove spec a b) (ha : Tracked a) : Tracked b := by
  refine ⟨?_, h.url ha.2⟩
  have hphase := ha.1
  rcases h.phase with hp | hp
  · rw [hp]
    exact hphase
  · generalize a.phase = p at hp hphase
    generalize b.phase = q at hp
    cases hp <;> simp at hphase ⊢

/-- What holds of the cluster and its history in every state of a run. -/
structure MergeInv (spec : AgentTaskSpec) (w : Cluster E × Watch) : Prop where
  task : TaskInv spec w.1.store
  merged : w.2.mergedAt ≠ none → w.1.merged = true
  tracked : ∀ k, w.2.mergedAt = some k →
    ∃ n a, n ≤ w.1.store.seen ∧ n ≤ k ∧ w.1.store.versions[n]? = some a ∧ Tracked a
  not_closed : ∀ k, w.2.mergedAt = some k → ∀ (i : Nat) (a : AgentTaskStatus), k ≤ i →
    w.1.store.versions[i]? = some a → a.phase ≠ .closed

/-- Every version the operator can still read, and every later one, is tracked. -/
theorem MergeInv.tracked_version {spec : AgentTaskSpec} {w : Cluster E × Watch}
    (h : MergeInv spec w) {k : Nat} (hk : w.2.mergedAt = some k) {n : Nat} {a : AgentTaskStatus}
    (hn : w.1.store.seen ≤ n ∨ k ≤ n) (ha : w.1.store.versions[n]? = some a) : Tracked a := by
  obtain ⟨i, b, hseen, hi, hb, htracked⟩ := h.tracked k hk
  have hin : i ≤ n := by omega
  exact h.task.moves.preserves (fun a b => Tracked a → Tracked b) (fun _ h => h)
    (fun x y z hxy hyz hx => hyz.tracked (hxy hx)) hin hb ha htracked

theorem MergeInv.tracked_read {spec : AgentTaskSpec} {w : Cluster E × Watch}
    (h : MergeInv spec w) (hm : w.2.mergedAt ≠ none) {n : Nat} {a : AgentTaskStatus}
    (hn : w.1.store.seen ≤ n) (ha : w.1.store.versions[n]? = some a) : Tracked a := by
  obtain ⟨k, hk⟩ := Option.ne_none_iff_exists'.mp hm
  exact h.tracked_version hk (Or.inl hn) ha

/-- The Reconcile holds version `n`, which is `a`. -/
def Holding (spec : AgentTaskSpec) (n : Nat) (a : AgentTaskStatus) (w : Cluster E × Watch) : Prop :=
  MergeInv spec w ∧ w.1.store.seen = n ∧ w.1.store.versions[n]? = some a

theorem MergeInv.unchanged {spec : AgentTaskSpec} {w w' : Cluster E × Watch} (h : MergeInv spec w)
    (hstore : w'.1.store = w.1.store) (hmerged : w.1.merged = true → w'.1.merged = true)
    (hat : w'.2.mergedAt = w.2.mergedAt) : MergeInv spec w' := by
  refine ⟨?_, ?_, ?_, ?_⟩
  · rw [hstore]
    exact h.task
  · rw [hat]
    intro hne
    exact hmerged (h.merged hne)
  · rw [hat, hstore]
    exact h.tracked
  · rw [hat, hstore]
    exact h.not_closed

/-- The history starts with an answer that the pull request is merged, given to a
Reconcile that has read a tracked version. -/
theorem MergeInv.told {spec : AgentTaskSpec} {w w' : Cluster E × Watch} (h : MergeInv spec w)
    (hstore : w'.1.store = w.1.store) (hmerged : w'.1.merged = true)
    (hat : w'.2.mergedAt = some (w.2.mergedAt.getD w.1.store.versions.length)) {n : Nat}
    {a : AgentTaskStatus} (hseen : n ≤ w.1.store.seen) (ha : w.1.store.versions[n]? = some a)
    (htracked : Tracked a) : MergeInv spec w' := by
  refine ⟨?_, fun _ => hmerged, ?_, ?_⟩
  · rw [hstore]
    exact h.task
  · rw [hat, hstore]
    intro k hk
    cases hm : w.2.mergedAt with
    | none =>
      rw [hm] at hk
      cases hk
      have hlt := (List.getElem?_eq_some_iff.mp ha).1
      exact ⟨n, a, hseen, Nat.le_of_lt hlt, ha, htracked⟩
    | some k₀ =>
      rw [hm] at hk
      cases hk
      exact h.tracked _ hm
  · rw [hat, hstore]
    intro k hk i b hi hb
    cases hm : w.2.mergedAt with
    | none =>
      rw [hm] at hk
      cases hk
      rw [List.getElem?_eq_none hi] at hb
      cases hb
    | some k₀ =>
      rw [hm] at hk
      cases hk
      exact h.not_closed _ hm i b hi hb

theorem MergeInv.drift {spec : AgentTaskSpec} {w w' : Cluster E × Watch} (h : MergeInv spec w)
    (hd : (mergeEnv task env).drift w w') : MergeInv spec w' := by
  obtain ⟨hd, hm⟩ := hd
  apply h.unchanged hd.store_eq hd.merged
  rw [hm]

theorem Holding.drift {spec : AgentTaskSpec} {n : Nat} {a : AgentTaskStatus}
    {w w' : Cluster E × Watch} (h : Holding spec n a w) (hd : (mergeEnv task env).drift w w') :
    Holding spec n a w' := by
  refine ⟨h.1.drift hd, ?_⟩
  rw [hd.1.store_eq]
  exact h.2

theorem Holding.call {n : Nat} {a : AgentTaskStatus} {w w' : Cluster E × Watch} {o : ApiOp}
    {r : o.Resp} (h : Holding task.spec n a w) (ho : MayCall true (task.version n a) o)
    (htold : ToldMerged o r = false)
    (hsafe : w.2.mergedAt = none ∨ ∀ t, o = .updateTaskStatus t → t.status.phase ≠ .closed)
    (hans : (mergeEnv task env).answer w o r w') :
    Holding task.spec n a w' ∧ w'.2.mergedAt = w.2.mergedAt := by
  obtain ⟨hinv, rfl, ha⟩ := h
  obtain ⟨⟨⟨hserve, _, _, hmerged, _⟩, hm⟩, _⟩ := hans
  have hat : w'.2.mergedAt = w.2.mergedAt := by
    rw [hm]
    simp [watch, htold]
  obtain ⟨hseen, hversion⟩ := hserve.keeps_version ha ho
  refine ⟨⟨⟨hinv.task.serve hserve ha ho, ?_, ?_, ?_⟩, hseen, hversion⟩, hat⟩
  · rw [hat, hmerged]
    exact hinv.merged
  · rw [hat]
    intro k hk
    obtain ⟨i, b, hi, hik, hb, htracked⟩ := hinv.tracked k hk
    refine ⟨i, b, hseen ▸ hi, hik, ?_, htracked⟩
    obtain ⟨hlt, rfl⟩ := List.getElem?_eq_some_iff.mp hb
    exact List.prefix_iff_getElem?.mp (hserve.grows ha ho) i hlt
  · rw [hat]
    intro k hk i b hi hb
    rcases hserve.cases ha ho with hsame | ⟨c, rfl, _, _, _, hwrite⟩
    · rw [hsame] at hb
      exact hinv.not_closed k hk i b hi hb
    · rw [hwrite] at hb
      rcases Versioned.getElem?_write_cases hb with hb | rfl
      · exact hinv.not_closed k hk i b hi hb
      · rcases hsafe with hnone | hsafe
        · rw [hnone] at hk
          cases hk
        · exact hsafe _ rfl

theorem toldMerged_iff {url : WorkerURL} (hurl : url.endpoint = .prStatus)
    {reply : Except String HttpReply} : ToldMerged (.httpGet url) reply = true ↔
      ∃ s : PRStatusResponse, decodeReply {} PRStatusResponse.set reply = .ok s ∧ s.merged = true := by
  simp only [ToldMerged, hurl, decide_true, Bool.true_and]
  cases decodeReply {} PRStatusResponse.set reply with
  | error err => simp
  | ok s => simp

/-- The question for the pull request: an answer that it is merged starts the
history, and then no answer says that it is closed. -/
theorem Holding.ask {n : Nat} {a : AgentTaskStatus} {w w' : Cluster E × Watch} {url : WorkerURL}
    {reply : Except String HttpReply} (h : Holding task.spec n a w) (ha : Waiting a)
    (hpr : a.pullRequestURL ≠ "") (hurl : url.endpoint = .prStatus)
    (hans : (mergeEnv task env).answer w (.httpGet url) reply w') :
    Holding task.spec n a w' ∧ ∀ s : PRStatusResponse,
      decodeReply {} PRStatusResponse.set reply = .ok s → s.merged = false → s.state = "closed" →
      w'.2.mergedAt = none := by
  obtain ⟨hinv, hseen, hversion⟩ := h
  obtain ⟨⟨⟨hserve, _, hreports, hmerged, _⟩, hm⟩, _⟩ := hans
  have hstore : w'.1.store = w.1.store := hserve
  have hat : w'.2.mergedAt = if ToldMerged (.httpGet url) reply then
      some (w.2.mergedAt.getD w.1.store.versions.length) else w.2.mergedAt := by
    rw [hm]
    rfl
  have hholds : w'.1.store.seen = n ∧ w'.1.store.versions[n]? = some a := by
    rw [hstore]
    exact ⟨hseen, hversion⟩
  by_cases htold : ToldMerged (.httpGet url) reply = true
  · obtain ⟨s, hs, hsm⟩ := (toldMerged_iff hurl).mp htold
    rw [if_pos htold] at hat
    have htracked : Tracked a := by
      refine ⟨?_, hpr⟩
      rcases List.mem_pair.mp ha with ha | ha
      · simp [ha]
      · simp [ha]
    have hmerged' : w'.1.merged = true := by
      rw [hmerged]
      exact (hreports hurl s hs).1 hsm
    refine ⟨⟨hinv.told hstore hmerged' hat (Nat.le_of_eq hseen.symm) hversion htracked, hholds⟩, ?_⟩
    intro s' hs' hsm'
    rw [hs] at hs'
    cases hs'
    rw [hsm] at hsm'
    cases hsm'
  · rw [if_neg htold] at hat
    refine ⟨⟨hinv.unchanged hstore (by rw [hmerged]; exact id) hat, hholds⟩, ?_⟩
    intro s hs hsm hclosed
    rw [hat]
    by_contra hne
    have hfalse := (hreports hurl s hs).2 hsm hclosed
    rw [hinv.merged hne] at hfalse
    cases hfalse

/-- Calls other than the question for the pull request. -/
def NotAsking (t : AgentTask) (o : ApiOp) : Prop :=
  MayCall true t o ∧ ∀ url, o = .httpGet url → url.endpoint ≠ .prStatus

theorem NotAsking.told {t : AgentTask} {o : ApiOp} (h : NotAsking t o) (r : o.Resp) :
    ToldMerged o r = false := by
  cases o with
  | httpGet url => simp [ToldMerged, h.2 url rfl]
  | _ => rfl

theorem MayCall.mono {t : AgentTask} {o : ApiOp} (h : MayCall false t o) : NotAsking t o := by
  refine ⟨?_, ?_⟩
  · cases o with
    | httpGet url => exact Bool.noConfusion h.1
    | _ => exact h
  · rintro url rfl
    exact Bool.noConfusion h.1

section Keeping

variable {n : Nat} {a : AgentTaskStatus} {w : Cluster E × Watch} {p : OperatorM Outcome}

/-- Whatever the rest of the Reconcile does keeps the invariant. -/
abbrev KeepsMerge (task : AgentTask) (env : Environment ApiOp ApiOp.Resp E)
    (p : OperatorM Outcome) (w : Cluster E × Watch) : Prop :=
  Keeps (mergeEnv task env) (MergeInv task.spec) (mergeEnv task env).drift (fun _ _ => True)
    (fun _ _ => True) p w

/-- Before the operator has been told, it may write what it likes. -/
theorem keepsMerge_untold (hp : p.Uses (NotAsking (task.version n a)))
    (hw : Holding task.spec n a w) (hm : w.2.mergedAt = none) : KeepsMerge task env p w := by
  have hkeep : Keeps (mergeEnv task env) (MergeInv task.spec) (mergeEnv task env).drift
      (fun _ _ => True) (fun _ w => Holding task.spec n a w ∧ w.2.mergedAt = none) p w := by
    apply Keeps.of_uses hp ⟨hw, hm⟩
    · rintro w₁ w₂ ⟨h, hm⟩ hd
      refine ⟨h.drift hd, ?_⟩
      rw [hd.2]
      exact hm
    · rintro o ho w₁ r w₂ ⟨h, hm⟩ hans
      obtain ⟨h', hm'⟩ := h.call ho.1 (ho.told r) (Or.inl hm) hans
      exact ⟨h'.1, trivial, h', hm'.trans hm⟩
  exact hkeep.mono fun _ _ _ => trivial

theorem keepsMerge_open (hp : p.Uses fun o => MayCall false (task.version n a) o ∧
      ∀ t, o = .updateTaskStatus t → t.status.phase ≠ .closed)
    (hw : Holding task.spec n a w) : KeepsMerge task env p w := by
  have hkeep : Keeps (mergeEnv task env) (MergeInv task.spec) (mergeEnv task env).drift
      (fun _ _ => True) (fun _ w => Holding task.spec n a w) p w := by
    apply Keeps.of_uses hp hw
    · exact fun w₁ w₂ h hd => h.drift hd
    · rintro o ho w₁ r w₂ h hans
      obtain ⟨h', _⟩ := h.call ho.1.mono.1 (ho.1.mono.told r) (Or.inr ho.2) hans
      exact ⟨h'.1, trivial, h'⟩
  exact hkeep.mono fun _ _ _ => trivial

theorem handlePRStatus_keepsMerge {podIP : String} {prStatus : PRStatusResponse}
    (ha : Waiting a) (hw : Holding task.spec n a w)
    (hclosed : prStatus.merged = false → prStatus.state = "closed" → w.2.mergedAt = none) :
    KeepsMerge task env (handlePRStatus (task.version n a) podIP prStatus) w := by
  have hbook : ∀ o, Bookkeeping o → MayCall false (task.version n a) o ∧
      ∀ t, o = .updateTaskStatus t → t.status.phase ≠ .closed := by
    intro o ho
    refine ⟨ho.mayCall, ?_⟩
    rintro t rfl
    exact ho.elim
  unfold handlePRStatus
  dsimp only
  split
  · apply keepsMerge_open _ hw
    apply concludePR_uses hbook
    · exact ⟨fun _ => ha, fun t h => by cases h⟩
    · exact fun key => ⟨mayCall_deletePod (t := task.version n a) ha key, fun t h => by cases h⟩
    · refine ⟨mayCall_track (t := task.version n a) ha (by simp) _ _, ?_⟩
      rintro t h
      cases h
      exact Phase.noConfusion
  · rename_i hmerged
    split
    · rename_i hstate
      apply keepsMerge_untold _ hw (hclosed (by simpa using hmerged) hstate)
      apply Uses.mono _ fun o => MayCall.mono
      exact concludePR_uses (fun _ h => h.mayCall) (fun _ => ha)
        (mayCall_deletePod (t := task.version n a) ha) (mayCall_track (t := task.version n a) ha (by simp) _ _)
    · apply keepsMerge_open _ hw
      apply finishWaiting_uses hbook
      refine ⟨mayCall_track (t := task.version n a) ha (by simp) _ _, ?_⟩
      rintro t h
      cases h
      exact Phase.noConfusion

theorem trackPR_keepsMerge {r : Except ApiError Pod} (ha : Waiting a)
    (hpr : a.pullRequestURL ≠ "") (hw : Holding task.spec n a w)
    (hr : w.2.mergedAt ≠ none → Up r) : KeepsMerge task env (trackPR (task.version n a) r) w := by
  rcases unavailable_or_available r with hgone | ⟨pod, rfl, hphase, hip⟩
  · rw [trackPR_unavailable hgone]
    have hm : w.2.mergedAt = none := by
      by_contra hm
      obtain ⟨pod, rfl, hphase, hip⟩ := (hr hm).pod
      rcases hgone pod rfl with h | h
      · exact h hphase
      · exact hip h
    have huses : (closeUntracked (task.version n a)).Uses (MayCall false (task.version n a)) :=
      closeUntracked_uses ha
    exact keepsMerge_untold (huses.mono fun o => MayCall.mono) hw hm
  · rw [trackPR_available hphase hip]
    refine Keeps.call (fun reply w => Holding task.spec n a w ∧
        ∀ s : PRStatusResponse, decodeReply {} PRStatusResponse.set reply = .ok s →
          s.merged = false → s.state = "closed" → w.2.mergedAt = none) ?_ ?_ ?_ ?_
    · rintro reply w₁ w₂ ⟨h, hs⟩ hd _
      refine ⟨h.drift hd, ?_⟩
      rw [hd.2]
      exact hs
    · exact fun w₁ w₂ h hd => h.drift hd
    · intro reply w₁ hans
      have hask := hw.ask ha hpr rfl hans
      exact ⟨hask.1.1, trivial, hask⟩
    · rintro reply w₁ _ ⟨h, hs⟩
      dsimp only [Program.bind, pure_eq]
      cases hdecode : decodeReply {} PRStatusResponse.set reply with
      | error err => trivial
      | ok s => exact handlePRStatus_keepsMerge ha h (hs s hdecode)

theorem handleWaitingForPR_keepsMerge (ha : Waiting a) (hw : Holding task.spec n a w)
    (hread : w.2.reading = some a) :
    KeepsMerge task env (handleWaitingForPR (task.version n a)) w := by
  by_cases hpr : a.pullRequestURL = ""
  · rw [handleWaitingForPR_noPR hpr]
    have hm : w.2.mergedAt = none := by
      by_contra hm
      obtain ⟨hinv, hseen, hversion⟩ := hw
      exact (hinv.tracked_read hm (Nat.le_of_eq hseen) hversion).2 hpr
    have huses : (closeWithoutPR (task.version n a)).Uses (MayCall false (task.version n a)) :=
      closeWithoutPR_uses ha
    exact keepsMerge_untold (huses.mono fun o => MayCall.mono) hw hm
  · rw [handleWaitingForPR_eq hpr]
    refine Keeps.call (fun r w => Holding task.spec n a w ∧ (w.2.mergedAt ≠ none → Up r))
      ?_ ?_ ?_ ?_
    · rintro reply w₁ w₂ ⟨h, hs⟩ hd _
      refine ⟨h.drift hd, ?_⟩
      rw [hd.2]
      exact hs
    · exact fun w₁ w₂ h hd => h.drift hd
    · intro r w₁ hans
      obtain ⟨h, hm⟩ := hw.call (o := .getPod _) trivial rfl (Or.inr fun t h => by cases h) hans
      refine ⟨h.1, trivial, h, ?_⟩
      rw [hm]
      intro hne
      exact hans.2 ⟨hne, a, hread, ha⟩
    · rintro r w₁ _ ⟨h, hr⟩
      exact trackPR_keepsMerge ha hpr h hr

theorem dispatch_keepsMerge (hw : Holding task.spec n a w) (hread : w.2.reading = some a) :
    KeepsMerge task env (dispatch (task.version n a)) w := by
  by_cases ha : Waiting a
  · rw [dispatch_waiting (t := task.version n a) ha]
    exact handleWaitingForPR_keepsMerge ha hw hread
  by_cases hm : w.2.mergedAt = none
  · apply keepsMerge_untold _ hw hm
    apply (dispatch_uses (task.version n a)).mono
    intro o ho
    refine ⟨ho, ?_⟩
    rintro url rfl hurl
    exact ha (ho.2 hurl)
  · obtain ⟨hinv, hseen, hversion⟩ := hw
    have hphase := (hinv.tracked_read hm (Nat.le_of_eq hseen) hversion).1
    simp only [List.mem_cons, List.not_mem_nil, or_false] at hphase
    rcases hphase with h | h | h | h
    · exact absurd (List.mem_pair.mpr (Or.inl h)) ha
    · exact absurd (List.mem_pair.mpr (Or.inr h)) ha
    · unfold dispatch
      simp only [version_status, h]
      trivial
    · unfold dispatch
      simp only [version_status, h]
      trivial

end Keeping

theorem MergeInv.start (spec : AgentTaskSpec) (e : E) : MergeInv spec (Cluster.start e, {}) := by
  refine ⟨TaskInv.start spec, ?_, ?_, ?_⟩
  · intro h
    exact absurd rfl h
  · intro k hk
    cases hk
  · intro k hk
    cases hk

theorem reconcile_keepsMerge {w : Cluster E × Watch} (hw : MergeInv task.spec w) :
    KeepsMerge task env (reconcile task.key) w := by
  refine Keeps.call (fun r w => ∀ t, r = .ok t → ∃ n a, t = task.version n a ∧
      Holding task.spec n a w ∧ w.2.reading = some a) ?_ ?_ ?_ ?_
  · intro r w₁ w₂ h hd _ t hr
    obtain ⟨n, a, rfl, hholding, hread⟩ := h t hr
    refine ⟨n, a, rfl, hholding.drift hd, ?_⟩
    rw [hd.2]
    exact hread
  · exact fun w₁ w₂ h hd => h.drift hd
  · rintro r w₁ ⟨⟨⟨hserve, _, _, hmerged, _⟩, hm⟩, _⟩
    have hat : w₁.2.mergedAt = w.2.mergedAt := by
      rw [hm]
      rfl
    have hversions : w₁.1.store.versions = w.1.store.versions := by
      rcases hserve.read with hs | ⟨n, a, _, _, hs⟩
      · rw [hs]
      · rw [hs, Versioned.read_versions]
    have hseen : w.1.store.seen ≤ w₁.1.store.seen := by
      rcases hserve.read with hs | ⟨n, a, _, hserves, hs⟩
      · rw [hs]
      · rw [hs, Versioned.read_seen]
        exact hserves.1
    have hinv : MergeInv task.spec w₁ := by
      refine ⟨hw.task.serve_read hserve, ?_, ?_, ?_⟩
      · rw [hat, hmerged]
        exact hw.merged
      · rw [hat, hversions]
        intro k hk
        obtain ⟨i, b, hi, hik, hb, htracked⟩ := hw.tracked k hk
        exact ⟨i, b, Nat.le_trans hi hseen, hik, hb, htracked⟩
      · rw [hat, hversions]
        exact hw.not_closed
    refine ⟨hinv, trivial, ?_⟩
    rintro t rfl
    obtain ⟨n, a, rfl, hserves, hs⟩ := hserve
    refine ⟨n, a, rfl, ⟨hinv, ?_, ?_⟩, ?_⟩
    · rw [hs, Versioned.read_seen]
    · rw [hversions]
      exact hserves.2
    · rw [hm]
      rfl
  · intro r w₁ _ h
    cases r with
    | error err =>
      change KeepsMerge task env (if err.reason = .notFound then _ else _) w₁
      split <;> trivial
    | ok t =>
      obtain ⟨n, a, rfl, hholding, hread⟩ := h t rfl
      exact dispatch_keepsMerge hholding hread

/-- As long as the pod is found, no version written after the operator has been
told of the merge is Closed, and a final one is Merged. -/
theorem merged_stays {e : E} {c : Pool Unit ApiOp ApiOp.Resp Outcome (Cluster E × Watch)}
    (hc : Reachable (mergeEnv task env) task (Cluster.start e, {}) c) {k : Nat}
    (hk : c.world.2.mergedAt = some k) {i : Nat} {a : AgentTaskStatus} (hi : k ≤ i)
    (ha : c.world.1.store.versions[i]? = some a) :
    a.phase ≠ .closed ∧ (Final task.spec a → a.phase = .merged) := by
  have hinv : MergeInv task.spec c.world := by
    refine Pool.Reachable.invariant (MergeInv task.spec) (fun _ => (mergeEnv task env).drift)
      (fun _ _ _ => True) (fun w w' h hd => h.drift hd) (fun _ _ _ h => h)
      (fun i j _ _ hij => absurd rfl hij) (fun _ w hw => ?_) (MergeInv.start task.spec e) hc
    exact reconcile_keepsMerge hw
  have hclosed := hinv.not_closed k hk i a hi ha
  refine ⟨hclosed, ?_⟩
  rintro (h | h | ⟨h, _⟩)
  · exact h
  · exact absurd h hclosed
  · have htracked := (hinv.tracked_version hk (Or.inr hi) ha).1
    simp [h] at htracked

/-! ## The race -/

/-- One complete Reconcile of the small task. -/
def raceStep (writes : Bool) (w : Cluster Unit × Watch) : Cluster Unit × Watch :=
  (play (watching (Cluster.respond demoTask writes) watch) (reconcile demoTask.key) w).2.2

/-- The worker's pod is up. -/
def racePods (w : Cluster Unit × Watch) : Cluster Unit × Watch :=
  ({ w.1 with pods := w.1.pods.report "worker-t" .running "10.0.0.1" }, w.2)

def raceRunning : Cluster Unit × Watch :=
  racePods (raceStep true (raceStep true (Cluster.start (), {})))

/-- The task waits for its pull request, which is merged. -/
def raceMerged : Cluster Unit × Watch :=
  ({ (raceStep true raceRunning).1 with merged := true }, (raceStep true raceRunning).2)

/-- The Reconcile that is told of the merge deletes the pod, and its status write
fails; the pod goes, and the next Reconcile runs. -/
def raceClosed : Cluster Unit × Watch :=
  let w := raceStep false raceMerged
  raceStep true ({ w.1 with pods := w.1.pods.vanish "worker-t" }, w.2)

abbrev RaceReachable (w : Cluster Unit × Watch) : Prop :=
  Reachable (mergeEnv demoTask Cluster.free) demoTask (Cluster.start (), {}) (Pool.idle w)

theorem raceStep_reachable {w : Cluster Unit × Watch} (writes : Bool) (h : RaceReachable w)
    (hfinds : PlaysWithin FindsPod (watching (Cluster.respond demoTask writes) watch)
      (reconcile demoTask.key) w) : RaceReachable (raceStep writes w) := by
  apply h.execute (i := ())
  apply Executes.of_play_restrict _ hfinds
  exact answer_watching (Cluster.answer_respond demoTask writes) watch

theorem raceMerged_reachable : RaceReachable raceMerged := by
  have hstart : RaceReachable (raceStep true (raceStep true (Cluster.start (), {}))) :=
    raceStep_reachable true (raceStep_reachable true .refl (by decide)) (by decide)
  have hrunning : RaceReachable raceRunning := hstart.drift ⟨.pods (.report _ _ _ _), rfl⟩
  have hwaiting := raceStep_reachable true hrunning (by decide)
  exact hwaiting.drift ⟨.merge _, rfl⟩

/-- The operator has been told that the pull request is merged, and the version
it writes next is Closed. -/
theorem closed_after_merge :
    Reachable ((cluster demoTask Cluster.free).watched watch) demoTask (Cluster.start (), {})
        (Pool.idle raceClosed) ∧
      ∃ k i a, raceClosed.2.mergedAt = some k ∧ k ≤ i ∧
        raceClosed.1.store.versions[i]? = some a ∧ a.phase = .closed := by
  refine ⟨?_, 4, 4, raceClosed.1.store.current, by decide, by decide, by decide, by decide⟩
  have hstep : ∀ {w} (writes : Bool),
      Reachable ((cluster demoTask Cluster.free).watched watch) demoTask (Cluster.start (), {})
        (Pool.idle w) →
      Reachable ((cluster demoTask Cluster.free).watched watch) demoTask (Cluster.start (), {})
        (Pool.idle (raceStep writes w)) := by
    intro w writes h
    apply h.execute (i := ())
    apply Executes.of_play
    exact answer_watching (Cluster.answer_respond demoTask writes) watch
  have htold := hstep false raceMerged_reachable.of_restrict
  exact hstep true (htold.drift ⟨.pods (.vanish (by decide)), rfl⟩)

/-- Without the failed write the task ends as Merged. -/
theorem merged_stays_demo : (raceStep true raceMerged).1.store.current.phase = .merged := by
  have hrun : RaceReachable (raceStep true raceMerged) :=
    raceStep_reachable true raceMerged_reachable (by decide)
  have hversion : (raceStep true raceMerged).1.store.versions[4]? =
      some (raceStep true raceMerged).1.store.current := by decide
  have hstays := merged_stays hrun (k := 4) (by decide) (Nat.le_refl 4) hversion
  apply hstays.2
  have hphase := hstays.1
  revert hphase
  decide

end BulletFarm.Operator
