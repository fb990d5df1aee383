import BulletFarm.Operator.Cluster
import BulletFarm.Operator.Wakeups
import BulletFarm.Worker.Routes

/-!
# Graduation before teardown

The cluster of one task with the documents its workers keep. When the pull request
has been decided, the operator asks the worker to graduate, deletes the pod and
writes the status; it looks at no reply of the worker on the way.
-/

namespace BulletFarm.System

open Interaction Program Operator
open Worker (Elastic Faults MemoryWriteBuffer RunDocument TaskStatus WorkerM WorkerOp graduateTask
  graduationKnowledge ofTask replyCode sharedMemoryIndex succeededOf taskMemoryIndex CanGraduate
  Graduated KnowledgeOf)

set_option autoImplicit false

/-! ## The documents -/

/-- The documents of all indices. `succeeded` records every Succeeded document that was
written for the task; nobody reads it. -/
structure Memory where
  elastic : Elastic
  succeeded : List Python.Dict

namespace Memory

def write (m : Memory) (taskID : String) (doc : Python.Dict) : Memory where
  elastic := m.elastic.add taskMemoryIndex doc
  succeeded := if succeededOf taskID doc then m.succeeded ++ [doc] else m.succeeded

/-- Runs of the task write their documents. Everything else may change as well, but
nothing shared is lost, and the task's documents are left alone. -/
inductive Drift (taskID : String) : Memory → Memory → Prop where
  | write {m : Memory} {b : MemoryWriteBuffer} {stamp : Python.Time} {doc : Python.Dict} :
      b.taskID = taskID → RunDocument doc → Drift taskID m (m.write taskID (b.taskDocument stamp doc))
  | others {m : Memory} {es : Elastic} :
      (∀ d, ofTask taskID d = true → (d ∈ es taskMemoryIndex ↔ d ∈ m.elastic taskMemoryIndex)) →
      (∀ d ∈ m.elastic sharedMemoryIndex, d ∈ es sharedMemoryIndex) →
      Drift taskID m { m with elastic := es }

/-- A graduation by a worker with these tasks, whose search sees these documents, the code of
its reply, and the documents after it. -/
def Replies (taskID : String) (statuses : String → Option TaskStatus) (faults : Faults)
    (seen es : Elastic) (code : Nat) (es' : Elastic) : Prop :=
  ∃ tr r, (graduateTask statuses taskID : WorkerM Unit _).Ends () tr r () ∧
    Threads (Elastic.Serve faults seen) es tr es' ∧ code = replyCode r

def Graduates (m : Memory) (taskID : String) (code : Nat) (m' : Memory) : Prop :=
  m'.succeeded = m.succeeded ∧
    ∃ statuses faults seen, Replies taskID statuses faults seen m.elastic code m'.elastic

/-- Only a graduate request changes the documents. Without a reply it may have been
carried out all the same. -/
def Serve (m : Memory) : (o : ApiOp) → o.Resp → Memory → Prop
  | .httpPost url, .ok reply, m' =>
    if url.endpoint = .graduate then m.Graduates url.taskID reply.statusCode m' else m' = m
  | .httpPost url, .error _, m' =>
    m' = m ∨ url.endpoint = .graduate ∧ ∃ code, m.Graduates url.taskID code m'
  | _, _, m' => m' = m

end Memory

def memoryEnv (taskID : String) : Environment ApiOp ApiOp.Resp Memory where
  answer := Memory.Serve
  drift := Memory.Drift taskID

/-- Knowledge of a Succeeded document is shared, if there ever was one. -/
def Moved (m : Memory) : Prop :=
  m.succeeded ≠ [] → ∃ d ∈ m.elastic sharedMemoryIndex, KnowledgeOf m.succeeded d

/-- No document of the task is left. -/
def Cleared (taskID : String) (m : Memory) : Prop :=
  ∀ d ∈ m.elastic taskMemoryIndex, ofTask taskID d = false

/-! ## The history of a teardown -/

/-- `decided`: in this Reconcile the worker has said that the pull request is merged or closed.
`asked`: a graduate request was made. `graduated`: one was answered with success. `premature`:
a pod was deleted by a Reconcile with `decided`, and `graduated` did not hold. -/
structure Teardown where
  decided : Bool := false
  asked : Bool := false
  graduated : Bool := false
  premature : Bool := false

/-- The answer says that the pull request is merged or closed. -/
def Decides (reply : Except String HttpReply) : Bool :=
  match decodeReply {} PRStatusResponse.set reply with
  | .ok s => s.merged || s.state == "closed"
  | .error _ => false

def Succeeds : Except String HttpReply → Bool
  | .ok reply => reply.statusCode == 200
  | .error _ => false

def teardown (taskID : String) (h : Teardown) (_ : Cluster Memory) (o : ApiOp) (r : o.Resp) :
    Teardown :=
  match o, r with
  | .getTask _, _ => { h with decided := false }
  | .httpGet url, reply =>
    if url.endpoint = .prStatus then { h with decided := h.decided || Decides reply } else h
  | .httpPost url, reply =>
    if url.endpoint = .graduate then
      { h with
        asked := true
        graduated := h.graduated || url.taskID == taskID && Succeeds reply }
    else h
  | .deletePod _, _ => { h with premature := h.premature || h.decided && !h.graduated }
  | _, _ => h

/-- Until one has succeeded, a graduate request is answered by a worker that knows the task
and can graduate it, and whose search sees the documents that are stored. -/
def GraduatesWell (w : Cluster Memory × Teardown) :
    (o : ApiOp) → o.Resp → Cluster Memory × Teardown → Prop
  | .httpPost url, reply, w' => url.endpoint = .graduate → w.2.graduated = false →
    ∃ answer, reply = .ok answer ∧ ∃ statuses status faults, statuses url.taskID = some status ∧
      CanGraduate url.taskID faults w.1.rest.elastic ∧
      Memory.Replies url.taskID statuses faults w.1.rest.elastic w.1.rest.elastic answer.statusCode
        w'.1.rest.elastic
  | _, _, _ => True

/-- Once a graduate request was made, no document of the task is written. -/
def WritesNoMore (taskID : String) (w w' : Cluster Memory × Teardown) : Prop :=
  w.2.asked = true → ∀ d ∈ w'.1.rest.elastic taskMemoryIndex, ofTask taskID d = true →
    d ∈ w.1.rest.elastic taskMemoryIndex

/-- The cluster with its documents, watched. -/
abbrev memoryCluster (task : AgentTask) : Environment ApiOp ApiOp.Resp (Cluster Memory × Teardown) :=
  (cluster task (memoryEnv task.name)).watched (teardown task.name)

/-- The same when graduations work. -/
abbrev teardownEnv (task : AgentTask) : Environment ApiOp ApiOp.Resp (Cluster Memory × Teardown) :=
  ((memoryCluster task).restrict GraduatesWell).restrictDrift (WritesNoMore task.name)

/-- The status says that a reviewer has merged or closed the pull request. -/
def ByReviewer (s : AgentTaskStatus) : Prop :=
  s.phase = .merged ∨ s.phase = .closed ∧ s.message = "PR closed by reviewer without merge"

/-! ## The documents over a run -/

/-- The task's memory has been graduated for good. -/
structure Done (taskID : String) (m : Memory) : Prop where
  cleared : Cleared taskID m
  moved : Moved m

/-- Succeeded documents can be graduated, and as long as none has been there is one. -/
structure MemoryInv (taskID : String) (m : Memory) : Prop where
  recorded : ∀ d ∈ m.elastic taskMemoryIndex, succeededOf taskID d = true → d ∈ m.succeeded
  graduates : ∀ d ∈ m.elastic taskMemoryIndex, succeededOf taskID d = true →
    ∀ prState, ∃ k, graduationKnowledge d prState = .ok k
  kept : Moved m ∨ ∃ d ∈ m.elastic taskMemoryIndex, succeededOf taskID d = true

section Documents
variable {taskID : String} {m m' : Memory} {d doc : Python.Dict}

theorem Moved.of_shared (h : Moved m) (hsucceeded : m'.succeeded = m.succeeded)
    (hshared : ∀ d ∈ m.elastic sharedMemoryIndex, d ∈ m'.elastic sharedMemoryIndex) : Moved m' := by
  intro hne
  rw [hsucceeded] at hne ⊢
  obtain ⟨d, hd, hknowledge⟩ := h hne
  exact ⟨d, hshared d hd, hknowledge⟩

theorem write_shared (m : Memory) (taskID : String) (doc : Python.Dict) :
    (m.write taskID doc).elastic sharedMemoryIndex = m.elastic sharedMemoryIndex := by
  change m.elastic.add taskMemoryIndex doc sharedMemoryIndex = _
  exact Elastic.set_other _ _ (by decide)

theorem mem_write : d ∈ (m.write taskID doc).elastic taskMemoryIndex ↔
    d ∈ m.elastic taskMemoryIndex ∨ d = doc := by
  change d ∈ m.elastic.add taskMemoryIndex doc taskMemoryIndex ↔ _
  rw [Elastic.add, Elastic.set_same, List.mem_append, List.mem_singleton]

theorem write_succeeded (m : Memory) (taskID : String) (doc : Python.Dict) :
    (m.write taskID doc).succeeded =
      if succeededOf taskID doc then m.succeeded ++ [doc] else m.succeeded := rfl

theorem Moved.write (h : Moved m) (hdoc : succeededOf taskID doc = false) :
    Moved (m.write taskID doc) := by
  apply h.of_shared
  · rw [write_succeeded, hdoc, if_neg (by decide)]
  · intro d hd
    rw [write_shared]
    exact hd

theorem MemoryInv.drift (h : MemoryInv taskID m) (hd : m.Drift taskID m') : MemoryInv taskID m' := by
  cases hd with
  | @write b stamp doc hb hdoc =>
    refine ⟨?_, ?_, ?_⟩
    · intro d hd hsucceeded
      rw [write_succeeded]
      rcases mem_write.mp hd with hd | rfl
      · have hmem := h.recorded d hd hsucceeded
        split
        · exact List.mem_append_left _ hmem
        · exact hmem
      · rw [if_pos hsucceeded]
        exact List.mem_append_right _ (List.mem_singleton_self _)
    · intro d hd hsucceeded
      rcases mem_write.mp hd with hd | rfl
      · exact h.graduates d hd hsucceeded
      · unfold succeededOf at hsucceeded
        rw [Bool.and_eq_true] at hsucceeded
        exact hdoc.graduates b stamp hsucceeded.2
    · by_cases hsucceeded : succeededOf taskID (b.taskDocument stamp doc) = true
      · exact Or.inr ⟨_, mem_write.mpr (Or.inr rfl), hsucceeded⟩
      · rcases h.kept with hmoved | ⟨d, hd, hs⟩
        · exact Or.inl (hmoved.write (Bool.eq_false_iff.mpr hsucceeded))
        · exact Or.inr ⟨d, mem_write.mpr (Or.inl hd), hs⟩
  | others htask hshared =>
    have hof : ∀ d, succeededOf taskID d = true → ofTask taskID d = true :=
      fun d => Worker.ofTask_of_succeededOf
    refine ⟨?_, ?_, ?_⟩
    · intro d hd hsucceeded
      exact h.recorded d ((htask d (hof d hsucceeded)).mp hd) hsucceeded
    · intro d hd hsucceeded
      exact h.graduates d ((htask d (hof d hsucceeded)).mp hd) hsucceeded
    · rcases h.kept with hmoved | ⟨d, hd, hs⟩
      · exact Or.inl (hmoved.of_shared rfl hshared)
      · exact Or.inr ⟨d, (htask d (hof d hs)).mpr hd, hs⟩

theorem Done.drift (h : Done taskID m) (hd : m.Drift taskID m')
    (hwrites : ∀ d ∈ m'.elastic taskMemoryIndex, ofTask taskID d = true →
      d ∈ m.elastic taskMemoryIndex) : Done taskID m' := by
  have hcleared : Cleared taskID m' := by
    intro d hd
    by_contra hof
    have hmem := hwrites d hd (by simpa using hof)
    exact hof (h.cleared d hmem)
  refine ⟨hcleared, ?_⟩
  cases hd with
  | @write b stamp doc hb hdoc =>
    apply h.moved.write
    have hof := hcleared _ (mem_write.mpr (Or.inr rfl))
    by_contra hsucceeded
    rw [Worker.ofTask_of_succeededOf (by simpa using hsucceeded)] at hof
    cases hof
  | others htask hshared => exact h.moved.of_shared rfl hshared

theorem Done.inv (h : Done taskID m) : MemoryInv taskID m := by
  have hnone : ∀ d ∈ m.elastic taskMemoryIndex, succeededOf taskID d = false := by
    intro d hd
    by_contra hs
    have hof := h.cleared d hd
    rw [Worker.ofTask_of_succeededOf (by simpa using hs)] at hof
    cases hof
  refine ⟨?_, ?_, Or.inl h.moved⟩
  · intro d hd hs
    rw [hnone d hd] at hs
    cases hs
  · intro d hd hs
    rw [hnone d hd] at hs
    cases hs

/-- A graduation that works. -/
theorem MemoryInv.graduate (h : MemoryInv taskID m) {code : Nat}
    {statuses : String → Option TaskStatus} {status : TaskStatus} {faults : Faults}
    (hstatus : statuses taskID = some status) (hcan : CanGraduate taskID faults m.elastic)
    (hreplies : Memory.Replies taskID statuses faults m.elastic m.elastic code m'.elastic)
    (hsucceeded : m'.succeeded = m.succeeded) : code = 200 ∧ Done taskID m' := by
  obtain ⟨tr, r, hend, hes, rfl⟩ := hreplies
  obtain ⟨hcode, hgraduated⟩ := Worker.graduateTask_works hstatus hend hes hcan h.graduates
  refine ⟨hcode, hgraduated.deleted, ?_⟩
  rcases h.kept with hmoved | hthere
  · exact hmoved.of_shared hsucceeded hgraduated.shared
  · intro _
    obtain ⟨d, hd, hknowledge⟩ := hgraduated.knowledge hthere
    refine ⟨d, hd, hknowledge.mono ?_⟩
    intro x hx
    obtain ⟨hmem, hs⟩ := List.mem_filter.mp hx
    rw [hsucceeded]
    exact h.recorded x hmem hs

theorem Done.graduate (h : Done taskID m) {code : Nat} (hgraduates : m.Graduates taskID code m') :
    Done taskID m' := by
  obtain ⟨hsucceeded, statuses, faults, seen, tr, r, hend, hes, _⟩ := hgraduates
  obtain ⟨⟨added, hshared⟩, htask⟩ := Worker.graduateTask_moves hend hes
  refine ⟨fun d hd => h.cleared d (htask d hd), h.moved.of_shared hsucceeded ?_⟩
  intro d hd
  rw [hshared]
  exact List.mem_append_left _ hd

end Documents

/-! ## The cluster over a run -/

structure TeardownInv (taskID : String) (w : Cluster Memory × Teardown) : Prop where
  memory : MemoryInv taskID w.1.rest
  done : w.2.graduated = true → w.2.asked = true ∧ Done taskID w.1.rest
  reviewed : ∀ a ∈ w.1.store.versions, ByReviewer a → w.2.graduated = true
  timely : w.2.premature = false

section Cluster
variable {task : AgentTask} {w w' : Cluster Memory × Teardown}

theorem TeardownInv.drift (h : TeardownInv task.name w) (hd : (teardownEnv task).drift w w') :
    TeardownInv task.name w' := by
  obtain ⟨⟨hd, hhistory⟩, hwrites⟩ := hd
  have hstore := hd.store_eq
  have hrest : w'.1.rest = w.1.rest ∨ w.1.rest.Drift task.name w'.1.rest := by
    generalize w'.1 = c' at hd
    cases hd with
    | pods _ => exact Or.inl rfl
    | merge => exact Or.inl rfl
    | rest hd => exact Or.inr hd
  refine ⟨?_, ?_, ?_, ?_⟩
  · rcases hrest with hrest | hrest
    · rw [hrest]
      exact h.memory
    · exact h.memory.drift hrest
  · rw [hhistory]
    intro hgraduated
    obtain ⟨hasked, hdone⟩ := h.done hgraduated
    refine ⟨hasked, ?_⟩
    rcases hrest with hrest | hrest
    · rw [hrest]
      exact hdone
    · exact hdone.drift hrest (hwrites hasked)
  · rw [hstore, hhistory]
    exact h.reviewed
  · rw [hhistory]
    exact h.timely

/-- Calls that have nothing to do with a decided pull request; a reviewer's verdict is
written only after a graduation. -/
def Harmless (graduated : Bool) : ApiOp → Prop
  | .getTask _ => False
  | .updateTaskStatus t => ByReviewer t.status → graduated = true
  | .httpGet url => url.endpoint ≠ .prStatus
  | .httpPost url => url.endpoint ≠ .graduate
  | _ => True

/-- The Reconcile may go on with harmless calls. -/
structure Steady (taskID : String) (graduated : Bool) (w : Cluster Memory × Teardown) : Prop where
  inv : TeardownInv taskID w
  ready : w.2.decided = true → w.2.graduated = true
  after : graduated = true → w.2.graduated = true

/-- A Reconcile that has not been told of a decision may go on without a graduation. -/
theorem TeardownInv.undecided (h : TeardownInv task.name w) (hdecided : w.2.decided = false) :
    Steady task.name false w := by
  refine ⟨h, fun hd => ?_, fun hd => by cases hd⟩
  rw [hdecided] at hd
  cases hd

theorem Steady.drift {graduated : Bool} (h : Steady task.name graduated w)
    (hd : (teardownEnv task).drift w w') : Steady task.name graduated w' := by
  have hinv := h.inv.drift hd
  obtain ⟨⟨_, hhistory⟩, _⟩ := hd
  refine ⟨hinv, ?_, ?_⟩
  · rw [hhistory]
    exact h.ready
  · rw [hhistory]
    exact h.after

theorem Memory.Serve.harmless {m m' : Memory} {graduated : Bool} {o : ApiOp} {r : o.Resp}
    (h : m.Serve o r m') (ho : Harmless graduated o) : m' = m := by
  cases o with
  | httpPost url =>
    cases r with
    | ok reply =>
      change if url.endpoint = .graduate then _ else m' = m at h
      rw [if_neg ho] at h
      exact h
    | error text =>
      rcases h with h | ⟨hgraduate, _⟩
      · exact h
      · exact absurd hgraduate ho
  | _ => exact h

/-- Harmless calls leave the history alone, but for a pod deleted too early. -/
theorem teardown_harmless {taskID : String} {h : Teardown} {c : Cluster Memory} {graduated : Bool}
    {o : ApiOp} {r : o.Resp} (ho : Harmless graduated o) :
    teardown taskID h c o r = h ∨ teardown taskID h c o r =
      { h with premature := h.premature || h.decided && !h.graduated } := by
  cases o with
  | getTask key => exact ho.elim
  | httpGet url => exact Or.inl (if_neg ho)
  | httpPost url => exact Or.inl (if_neg ho)
  | deletePod key => exact Or.inr rfl
  | _ => exact Or.inl rfl

theorem Serve.versions {store store' : Versioned AgentTaskStatus} {graduated : Bool} {o : ApiOp}
    {r : o.Resp} (h : Serve task store o r store') (ho : Harmless graduated o) :
    ∀ a ∈ store'.versions, a ∈ store.versions ∨ (ByReviewer a → graduated = true) := by
  intro a ha
  cases o with
  | getTask key => exact ho.elim
  | updateTaskStatus t =>
    have hwrite : store' = store ∨ store' = store.write t.status := by
      cases r with
      | ok _ => exact Or.inr h.2
      | error err => exact h.imp_right And.right
    rcases hwrite with rfl | rfl
    · exact Or.inl ha
    · rcases Versioned.mem_write ha with ha | rfl
      · exact Or.inl ha
      · exact Or.inr ho
  | _ =>
    have hsame : store' = store := h
    rw [hsame] at ha
    exact Or.inl ha

theorem Steady.call {graduated : Bool} {o : ApiOp} {r : o.Resp} (h : Steady task.name graduated w)
    (ho : Harmless graduated o) (hans : (teardownEnv task).answer w o r w') :
    Steady task.name graduated w' := by
  obtain ⟨⟨⟨hserve, _, _, _, hmemory⟩, hhistory⟩, _⟩ := hans
  have hrest : w'.1.rest = w.1.rest := Memory.Serve.harmless hmemory ho
  have hsame : w'.2.decided = w.2.decided ∧ w'.2.asked = w.2.asked ∧
      w'.2.graduated = w.2.graduated ∧ w'.2.premature = false := by
    rw [hhistory]
    rcases teardown_harmless ho with heq | heq
    · rw [heq]
      exact ⟨rfl, rfl, rfl, h.inv.timely⟩
    · rw [heq]
      refine ⟨rfl, rfl, rfl, ?_⟩
      rw [h.inv.timely, Bool.false_or, Bool.and_eq_false_imp]
      intro hdecided
      rw [h.ready hdecided]
      rfl
  obtain ⟨hdecided, hasked, hgraduated, htimely⟩ := hsame
  refine ⟨⟨?_, ?_, ?_, htimely⟩, ?_, ?_⟩
  · rw [hrest]
    exact h.inv.memory
  · rw [hgraduated, hasked, hrest]
    exact h.inv.done
  · rw [hgraduated]
    intro a ha hreviewed
    rcases Serve.versions hserve ho a ha with ha | hwritten
    · exact h.inv.reviewed a ha hreviewed
    · exact h.after (hwritten hreviewed)
  · rw [hdecided, hgraduated]
    exact h.ready
  · rw [hgraduated]
    exact h.after

/-- A graduate request: the first that succeeds graduates, and none undoes it. -/
theorem TeardownInv.graduate (h : TeardownInv task.name w) {podIP : String}
    {reply : Except String HttpReply}
    (hans : (teardownEnv task).answer w (.httpPost ⟨podIP, task.name, .graduate⟩) reply w') :
    Steady task.name true w' := by
  obtain ⟨⟨⟨hserve, _, _, _, hmemory⟩, hhistory⟩, hwell⟩ := hans
  have hstore : w'.1.store = w.1.store := hserve
  suffices hboth : w'.2.graduated = true ∧ Done task.name w'.1.rest by
    have hasked : w'.2.asked = true := by
      rw [hhistory]
      rfl
    refine ⟨⟨hboth.2.inv, fun _ => ⟨hasked, hboth.2⟩, fun _ _ _ => hboth.1, ?_⟩,
      fun _ => hboth.1, fun _ => hboth.1⟩
    rw [hhistory]
    exact h.timely
  have hhistory' : w'.2.graduated = (w.2.graduated || task.name == task.name && Succeeds reply) := by
    rw [hhistory]
    rfl
  by_cases hgraduated : w.2.graduated = true
  · refine ⟨?_, ?_⟩
    · rw [hhistory', hgraduated]
      rfl
    · obtain ⟨_, hdone⟩ := h.done hgraduated
      cases reply with
      | ok answer => exact hdone.graduate hmemory
      | error text =>
        rcases hmemory with hsame | ⟨_, code, hgraduates⟩
        · rw [hsame]
          exact hdone
        · exact hdone.graduate hgraduates
  · obtain ⟨answer, rfl, statuses, status, faults, hstatus, hcan, hreplies⟩ :=
      hwell rfl (Bool.eq_false_iff.mpr hgraduated)
    obtain ⟨hsucceeded, _⟩ := hmemory
    obtain ⟨hcode, hdone⟩ := h.memory.graduate hstatus hcan hreplies hsucceeded
    refine ⟨?_, hdone⟩
    rw [hhistory']
    simp [Succeeds, hcode]

end Cluster

/-! ## The Reconcile -/

theorem MayWrite.not_byReviewer {t : AgentTask} {s : AgentTaskStatus}
    (ht : t.status.phase ∉ [Phase.completed, .waitingForPR]) (h : MayWrite t s) : ¬ ByReviewer s := by
  have hphase : ∀ p : Phase, s.phase = p → p ≠ .merged ∧ p ≠ .closed → ¬ ByReviewer s := by
    rintro p hp ⟨hmerged, hclosed⟩ (hs | ⟨hs, _⟩)
    · exact hmerged (hp.symm.trans hs)
    · exact hclosed (hp.symm.trans hs)
  unfold MayWrite at h
  split at h
  · exact hphase .pending (congrArg AgentTaskStatus.phase h) (by decide)
  · next hpending =>
    rcases h with ⟨message, rfl⟩ | ⟨time, message, rfl⟩
    · exact hphase .pending hpending (by decide)
    · exact hphase .running rfl (by decide)
  · next hrunning =>
    rcases h with ⟨message, reason, _, rfl⟩ | ⟨time, message, rfl⟩ | ⟨status, hreport⟩
    · exact hphase .failed rfl (by decide)
    · exact hphase .completed rfl (by decide)
    · rcases hreport with rfl | ⟨time, message, rfl⟩ | ⟨message, reason, _, rfl⟩
      · exact hphase .running hrunning (by decide)
      · exact hphase .waitingForPR rfl (by decide)
      · exact hphase .failed rfl (by decide)
  · next hcompleted => exact absurd (List.mem_pair.mpr (Or.inl hcompleted)) ht
  · next hwaiting => exact absurd (List.mem_pair.mpr (Or.inr hwaiting)) ht
  · next hfailed =>
    rcases h with ⟨_, message, rfl⟩ | ⟨_, message, rfl⟩
    · exact hphase .pending rfl (by decide)
    · exact hphase .failed hfailed (by decide)
  · exact h.elim
  · exact h.elim
  · exact hphase .pending (congrArg AgentTaskStatus.phase h) (by decide)

theorem MayCall.harmless {t : AgentTask} {o : ApiOp} {graduated : Bool}
    (ht : t.status.phase ∉ [Phase.completed, .waitingForPR]) (h : MayCall true t o) :
    Harmless graduated o := by
  cases o with
  | getTask key => exact h
  | updateTaskStatus t' =>
    obtain ⟨s, rfl, hwrite⟩ := h
    exact fun hreviewed => absurd hreviewed (MayWrite.not_byReviewer ht hwrite)
  | httpGet url => exact fun hurl => ht (h.2 hurl)
  | httpPost url => exact fun hurl => ht (h hurl)
  | _ => trivial

theorem Bookkeeping.harmless {graduated : Bool} {o : ApiOp} (h : Bookkeeping o) :
    Harmless graduated o := by
  cases o with
  | getAgent key => trivial
  | getPod key => trivial
  | listTasks ns => trivial
  | now => trivial
  | updateAgentStatus agent => trivial
  | _ => exact h.elim

theorem closed_not_byReviewer (s : AgentTaskStatus) {message : String}
    (h : message ≠ "PR closed by reviewer without merge") :
    ¬ ByReviewer { s with phase := .closed, message := message } := by
  rintro (hphase | ⟨_, hmessage⟩)
  · cases hphase
  · exact h hmessage

theorem closeUntracked_harmless (t : AgentTask) : (closeUntracked t).Uses (Harmless false) := by
  refine ⟨?_, fun _ => ?_⟩
  · exact fun h => absurd h (closed_not_byReviewer t.status (by decide))
  · exact (updateAgentStatus_uses (fun _ h => Bookkeeping.harmless h) _ _).bind fun _ => trivial

theorem closeWithoutPR_harmless (t : AgentTask) : (closeWithoutPR t).Uses (Harmless false) := by
  refine ⟨?_, fun _ => ?_⟩
  · exact fun h => absurd h (closed_not_byReviewer t.status (by decide))
  · apply (cleanupWorkerPod_uses (fun _ h => Bookkeeping.harmless h) _ _ fun _ => trivial).bind
    intro _
    exact (updateAgentStatus_uses (fun _ h => Bookkeeping.harmless h) _ _).bind fun _ => trivial

section Reconcile
variable {task : AgentTask} {w : Cluster Memory × Teardown} {p : OperatorM Outcome} {n : Nat}
  {a : AgentTaskStatus}

/-- Whatever the rest of the Reconcile does keeps the invariant. -/
abbrev KeepsTeardown (task : AgentTask) (p : OperatorM Outcome) (w : Cluster Memory × Teardown) :
    Prop :=
  Keeps (teardownEnv task) (TeardownInv task.name) (teardownEnv task).drift (fun _ _ => True)
    (fun _ _ => True) p w

theorem keepsTeardown_harmless {graduated : Bool} (hp : p.Uses (Harmless graduated))
    (hw : Steady task.name graduated w) : KeepsTeardown task p w := by
  have hkeep : Keeps (teardownEnv task) (TeardownInv task.name) (teardownEnv task).drift
      (fun _ _ => True) (fun _ w => Steady task.name graduated w) p w := by
    apply Keeps.of_uses hp hw
    · exact fun w₁ w₂ h hd => h.drift hd
    · intro o ho w₁ r w₂ h hans
      have hnext := h.call ho hans
      exact ⟨hnext.inv, trivial, hnext⟩
  exact hkeep.mono fun _ _ _ => trivial

theorem concludePR_keeps {t : AgentTask} {podIP message : String} {phase : Phase}
    (hname : t.name = task.name) (hw : TeardownInv task.name w) :
    KeepsTeardown task (concludePR t podIP phase message) w := by
  unfold concludePR graduateWorker
  refine Keeps.call (fun _ w => Steady task.name true w) ?_ ?_ ?_ ?_
  · exact fun r w₁ w₂ h hd _ => h.drift hd
  · exact fun w₁ w₂ h hd => h.drift hd
  · intro reply w₁ hans
    have hname' : (t.withStatus fun s => { s with phase := phase, message := message }).name =
        task.name := hname
    rw [hname'] at hans
    have hnext := hw.graduate hans
    exact ⟨hnext.inv, trivial, hnext⟩
  · intro reply w₁ _ hnext
    apply keepsTeardown_harmless _ hnext
    apply (cleanupWorkerPod_uses (fun _ h => Bookkeeping.harmless h) _ _ fun _ => trivial).bind
    intro _
    exact finishWaiting_uses (fun _ h => Bookkeeping.harmless h) fun _ => rfl

theorem handlePRStatus_keeps {t : AgentTask} {podIP : String} {prStatus : PRStatusResponse}
    (hname : t.name = task.name) (hw : TeardownInv task.name w)
    (hopen : (prStatus.merged || prStatus.state == "closed") = false → w.2.decided = false) :
    KeepsTeardown task (handlePRStatus t podIP prStatus) w := by
  unfold handlePRStatus
  dsimp only
  split
  · exact concludePR_keeps hname hw
  · next hmerged =>
    split
    · exact concludePR_keeps hname hw
    · next hclosed =>
      have hdecided : w.2.decided = false := by
        apply hopen
        simp [hmerged, hclosed]
      apply keepsTeardown_harmless _ (hw.undecided hdecided)
      apply finishWaiting_uses fun _ h => Bookkeeping.harmless h
      rintro (h | ⟨h, _⟩)
      · cases h
      · cases h

theorem TeardownInv.ask {url : WorkerURL} {reply : Except String HttpReply} {w' : Cluster Memory × Teardown}
    (h : TeardownInv task.name w) (hdecided : w.2.decided = false) (hurl : url.endpoint = .prStatus)
    (hans : (teardownEnv task).answer w (.httpGet url) reply w') :
    TeardownInv task.name w' ∧ (Decides reply = false → w'.2.decided = false) := by
  obtain ⟨⟨⟨hserve, _, _, _, hmemory⟩, hhistory⟩, _⟩ := hans
  have hstore : w'.1.store = w.1.store := hserve
  have hrest : w'.1.rest = w.1.rest := hmemory
  have hhistory' : w'.2 = { w.2 with decided := w.2.decided || Decides reply } := by
    rw [hhistory]
    exact if_pos hurl
  refine ⟨⟨?_, ?_, ?_, ?_⟩, ?_⟩
  · rw [hrest]
    exact h.memory
  · rw [hhistory', hrest]
    exact h.done
  · rw [hhistory', hstore]
    exact h.reviewed
  · rw [hhistory']
    exact h.timely
  · intro hno
    rw [hhistory', hdecided, hno]
    rfl

theorem trackPR_keeps {r : Except ApiError Pod} (hw : TeardownInv task.name w)
    (hdecided : w.2.decided = false) : KeepsTeardown task (trackPR (task.version n a) r) w := by
  rcases unavailable_or_available r with hgone | ⟨pod, rfl, hphase, hip⟩
  · rw [trackPR_unavailable hgone]
    exact keepsTeardown_harmless (closeUntracked_harmless _) (hw.undecided hdecided)
  · rw [trackPR_available hphase hip]
    refine Keeps.call (fun reply w => TeardownInv task.name w ∧
      (Decides reply = false → w.2.decided = false)) ?_ ?_ ?_ ?_
    · rintro reply w₁ w₂ ⟨h, hs⟩ hd _
      refine ⟨h.drift hd, ?_⟩
      rw [hd.1.2]
      exact hs
    · exact fun w₁ w₂ h hd => h.drift hd
    · intro reply w₁ hans
      have hask := hw.ask hdecided rfl hans
      exact ⟨hask.1, trivial, hask⟩
    · rintro reply w₁ _ ⟨h, hs⟩
      dsimp only [Program.bind, pure_eq]
      cases hdecode : decodeReply {} PRStatusResponse.set reply with
      | error err => trivial
      | ok s =>
        apply handlePRStatus_keeps (version_name n a) h
        intro hopen
        apply hs
        unfold Decides
        rw [hdecode]
        exact hopen

theorem dispatch_keeps (hw : TeardownInv task.name w) (hdecided : w.2.decided = false) :
    KeepsTeardown task (dispatch (task.version n a)) w := by
  have hsteady : Steady task.name false w := hw.undecided hdecided
  by_cases ha : a.phase ∈ [Phase.completed, .waitingForPR]
  · rw [dispatch_waiting (t := task.version n a) ha]
    by_cases hpr : a.pullRequestURL = ""
    · rw [handleWaitingForPR_noPR hpr]
      exact keepsTeardown_harmless (closeWithoutPR_harmless _) hsteady
    · rw [handleWaitingForPR_eq hpr]
      refine Keeps.call (fun _ w => TeardownInv task.name w ∧ w.2.decided = false) ?_ ?_ ?_ ?_
      · rintro r w₁ w₂ ⟨h, hs⟩ hd _
        refine ⟨h.drift hd, ?_⟩
        rw [hd.1.2]
        exact hs
      · exact fun w₁ w₂ h hd => h.drift hd
      · intro r w₁ hans
        have hnext := hsteady.call (o := .getPod _) trivial hans
        have hhistory := hans.1.2
        refine ⟨hnext.inv, trivial, hnext.inv, ?_⟩
        rw [hhistory]
        exact hdecided
      · rintro r w₁ _ ⟨h, hs⟩
        exact trackPR_keeps h hs
  · apply keepsTeardown_harmless _ hsteady
    exact (dispatch_uses (task.version n a)).mono fun o ho => MayCall.harmless ha ho

theorem reconcile_keeps (hw : TeardownInv task.name w) : KeepsTeardown task (reconcile task.key) w := by
  refine Keeps.call (fun r w => w.2.decided = false ∧ ∀ t, r = .ok t → ∃ n a, t = task.version n a)
    ?_ ?_ ?_ ?_
  · rintro r w₁ w₂ ⟨hdecided, ht⟩ hd _
    refine ⟨?_, ht⟩
    rw [hd.1.2]
    exact hdecided
  · exact fun w₁ w₂ h hd => h.drift hd
  · rintro r w₁ ⟨⟨⟨hserve, _, _, _, hmemory⟩, hhistory⟩, _⟩
    have hrest : w₁.1.rest = w.1.rest := hmemory
    have hhistory' : w₁.2 = { w.2 with decided := false } := hhistory
    have hversions : w₁.1.store.versions = w.1.store.versions := by
      rcases hserve.read with hs | ⟨n, a, _, _, hs⟩
      · rw [hs]
      · rw [hs, Versioned.read_versions]
    refine ⟨⟨?_, ?_, ?_, ?_⟩, trivial, ?_, ?_⟩
    · rw [hrest]
      exact hw.memory
    · rw [hhistory', hrest]
      exact hw.done
    · rw [hhistory', hversions]
      exact hw.reviewed
    · rw [hhistory']
      exact hw.timely
    · rw [hhistory']
    · rintro t rfl
      obtain ⟨n, a, rfl, _, _⟩ := hserve
      exact ⟨n, a, rfl⟩
  · rintro r w₁ hinv ⟨hdecided, ht⟩
    cases r with
    | error err =>
      change KeepsTeardown task (if err.reason = .notFound then _ else _) w₁
      split <;> trivial
    | ok t =>
      obtain ⟨n, a, rfl⟩ := ht t rfl
      exact dispatch_keeps hinv hdecided

end Reconcile

theorem TeardownInv.start {taskID : String} {es : Elastic}
    (hnew : ∀ d ∈ es taskMemoryIndex, ofTask taskID d = false) :
    TeardownInv taskID (Cluster.start ⟨es, []⟩, {}) := by
  have hdone : Done taskID ⟨es, []⟩ := ⟨hnew, fun h => absurd rfl h⟩
  refine ⟨hdone.inv, ?_, ?_, rfl⟩
  · intro h
    cases h
  · intro a ha hreviewed
    rw [List.mem_singleton.mp ha] at hreviewed
    rcases hreviewed with h | ⟨h, _⟩
    · cases h
    · cases h

/-- When graduations work, no pod is deleted for a decided pull request before one has
succeeded, and the memory of a task that ends as its reviewer wanted has been graduated. -/
theorem graduated_before_teardown {task : AgentTask} {es : Elastic}
    (hnew : ∀ d ∈ es taskMemoryIndex, ofTask task.name d = false)
    {c : Pool Unit ApiOp ApiOp.Resp Outcome (Cluster Memory × Teardown)}
    (hc : Reachable (teardownEnv task) task (Cluster.start ⟨es, []⟩, {}) c) :
    c.world.2.premature = false ∧ ∀ a ∈ c.world.1.store.versions, ByReviewer a →
      Moved c.world.1.rest ∧ Cleared task.name c.world.1.rest := by
  have hinv : TeardownInv task.name c.world := by
    apply Pool.Reachable.invariant (TeardownInv task.name) (fun _ => (teardownEnv task).drift)
      (fun _ _ _ => True) _ _ _ _ (TeardownInv.start hnew) hc
    · exact fun w w' h hd => h.drift hd
    · exact fun i w w' hd => hd
    · exact fun i j w w' hij => absurd rfl hij
    · exact fun i w hw => reconcile_keeps hw
  refine ⟨hinv.timely, ?_⟩
  intro a ha hreviewed
  obtain ⟨_, hdone⟩ := hinv.done (hinv.reviewed a ha hreviewed)
  exact ⟨hdone.moved, hdone.cleared⟩

/-! ## Two runs -/

abbrev Responder : Type := Cluster Memory → (o : ApiOp) → o.Resp × Cluster Memory

/-- No request of the operator to a worker gets through, but for questions. -/
def unreachable : Responder
  | c, .httpPost _ => (.error "timeout", c)
  | c, o => c.respond demoTask true o

/-- A worker that knows every task, with a store that works. -/
def graduation (taskID : String) (es : Elastic) :=
  play (Elastic.respond ⟨.works, .works, .works⟩ es)
    ((graduateTask (fun taskID => some { taskID := taskID, phase := .succeeded }) taskID :
      WorkerM Unit _).start ()) es

def graduating : Responder
  | c, .httpPost url =>
    if url.endpoint = .graduate then
      let out := graduation url.taskID c.rest.elastic
      (.ok ⟨replyCode out.2.1.1, .ok none⟩, { c with rest := ⟨out.2.2, c.rest.succeeded⟩ })
    else (.ok ⟨200, .ok none⟩, c)
  | c, o => c.respond demoTask true o

section Runs
variable (respond : Responder)

def teardownStep (w : Cluster Memory × Teardown) : Cluster Memory × Teardown :=
  (play (watching respond (teardown "t")) (reconcile demoTask.key) w).2.2

def runningState : Cluster Memory × Teardown :=
  teardownStep respond (teardownStep respond (Cluster.start ⟨fun _ => [], []⟩, {}))

def demoDocument : Python.Dict :=
  (MemoryWriteBuffer.new "t" 0).taskDocument 0
    (Worker.taskMemoryDoc ⟨"t", "agent", "org/repo", "do it", "", [], false, ""⟩ "done" [] [] "url")

def upState : Cluster Memory × Teardown :=
  let w := runningState respond
  ({ w.1 with pods := w.1.pods.report "worker-t" .running "10.0.0.1" }, w.2)

/-- The run of the task has written its document. -/
def writtenState : Cluster Memory × Teardown :=
  let w := upState respond
  ({ w.1 with rest := w.1.rest.write "t" demoDocument }, w.2)

def waitingState : Cluster Memory × Teardown := teardownStep respond (writtenState respond)

def mergedState : Cluster Memory × Teardown :=
  let w := waitingState respond
  ({ w.1 with merged := true }, w.2)

/-- The operator has been told of the merge. -/
def concludedState : Cluster Memory × Teardown := teardownStep respond (mergedState respond)

end Runs

section Reached
variable {respond : Responder} {env : Environment ApiOp ApiOp.Resp (Cluster Memory × Teardown)}

theorem concludedState_reachable
    (hrespond : ∀ w o, env.answer w o (watching respond (teardown "t") w o).1
      (watching respond (teardown "t") w o).2)
    (hdrift : ∀ w w', (memoryCluster demoTask).drift w w' → w.2.asked = false → env.drift w w')
    (hrunning : (runningState respond).2.asked = false)
    (hwaiting : (waitingState respond).2.asked = false) :
    Reachable env demoTask (Cluster.start ⟨fun _ => [], []⟩, {})
      (Pool.idle (concludedState respond)) := by
  have hstep : ∀ {w}, Reachable env demoTask (Cluster.start ⟨fun _ => [], []⟩, {}) (Pool.idle w) →
      Reachable env demoTask (Cluster.start ⟨fun _ => [], []⟩, {})
        (Pool.idle (teardownStep respond w)) := by
    intro w h
    exact h.execute (i := ()) (Executes.of_play hrespond _ w)
  have hup := (hstep (hstep .refl)).drift
    (hdrift _ (upState respond) ⟨.pods (.report _ _ _ _), rfl⟩ hrunning)
  have hwritten := hup.drift
    (hdrift _ (writtenState respond) ⟨.rest (.write rfl (.succeeded _ _ _ _ _)), rfl⟩ hrunning)
  have hmerged := (hstep hwritten).drift (hdrift _ (mergedState respond) ⟨.merge _, rfl⟩ hwaiting)
  exact hstep hmerged

end Reached

theorem unreachable_answer (w : Cluster Memory × Teardown) (o : ApiOp) :
    (memoryCluster demoTask).answer w o (watching unreachable (teardown "t") w o).1
      (watching unreachable (teardown "t") w o).2 := by
  refine answer_watching ?_ (teardown "t") w o
  intro c o
  cases o with
  | httpPost url => exact ⟨rfl, rfl, trivial, rfl, Or.inl rfl⟩
  | _ => exact Cluster.answer_respond_of rfl

theorem graduating_answer (w : Cluster Memory × Teardown) (o : ApiOp) :
    (teardownEnv demoTask).answer w o (watching graduating (teardown "t") w o).1
      (watching graduating (teardown "t") w o).2 := by
  have hreplies : ∀ taskID es, Memory.Replies taskID
      (fun taskID => some { taskID := taskID, phase := .succeeded }) ⟨.works, .works, .works⟩ es es
      (replyCode (graduation taskID es).2.1.1) (graduation taskID es).2.2 := by
    intro taskID es
    exact ⟨_, _, runs_play _ _ _, threads_play _ (Elastic.serve_respond _ es) _ _, rfl⟩
  have hcan : ∀ taskID es, CanGraduate taskID ⟨.works, .works, .works⟩ es :=
    fun taskID es => ⟨fun _ _ _ => rfl, fun _ => ⟨rfl, rfl⟩⟩
  cases o with
  | httpPost url =>
    by_cases hgraduate : url.endpoint = .graduate
    · have heq : graduating w.1 (.httpPost url) =
          (.ok ⟨replyCode (graduation url.taskID w.1.rest.elastic).2.1.1, .ok none⟩, { w.1 with
            rest := ⟨(graduation url.taskID w.1.rest.elastic).2.2, w.1.rest.succeeded⟩ }) :=
        if_pos hgraduate
      unfold watching
      rw [heq]
      refine ⟨⟨⟨rfl, rfl, trivial, rfl, ?_⟩, rfl⟩, ?_⟩
      · change if url.endpoint = .graduate then _ else _
        rw [if_pos hgraduate]
        exact ⟨rfl, _, _, _, hreplies _ _⟩
      · intro _ _
        exact ⟨_, rfl, _, _, _, rfl, hcan _ _, hreplies _ _⟩
    · have heq : graduating w.1 (.httpPost url) = (.ok ⟨200, .ok none⟩, w.1) := if_neg hgraduate
      unfold watching
      rw [heq]
      refine ⟨⟨⟨rfl, rfl, trivial, rfl, ?_⟩, rfl⟩, fun h => absurd h hgraduate⟩
      change if url.endpoint = .graduate then _ else _
      rw [if_neg hgraduate]
  | _ => exact ⟨⟨Cluster.answer_respond_of rfl, rfl⟩, trivial⟩

/-- The worker cannot be reached: its pod is deleted and the task ends as Merged, with its
memory where it was. -/
theorem torn_down_ungraduated :
    ∃ c : Pool Unit ApiOp ApiOp.Resp Outcome (Cluster Memory × Teardown),
      Reachable (memoryCluster demoTask) demoTask (Cluster.start ⟨fun _ => [], []⟩, {}) c ∧
        c.world.2.premature = true ∧ ∃ a ∈ c.world.1.store.versions, ByReviewer a ∧
          ¬ Moved c.world.1.rest ∧ ¬ Cleared demoTask.name c.world.1.rest := by
  refine ⟨Pool.idle (concludedState unreachable), ?_, by decide,
    (concludedState unreachable).1.store.current, Versioned.current_mem _, Or.inl (by decide), ?_, ?_⟩
  · exact concludedState_reachable unreachable_answer (fun _ _ h _ => h) (by decide) (by decide)
  · intro hmoved
    have hne : (concludedState unreachable).1.rest.succeeded ≠ [] := by
      intro h
      have hlength := congrArg List.length h
      revert hlength
      decide
    obtain ⟨d, hd, _⟩ := hmoved hne
    have hshared : (concludedState unreachable).1.rest.elastic sharedMemoryIndex = [] := rfl
    change d ∈ (concludedState unreachable).1.rest.elastic sharedMemoryIndex at hd
    rw [hshared] at hd
    cases hd
  · intro hcleared
    have hdocs : (concludedState unreachable).1.rest.elastic taskMemoryIndex = [demoDocument] := rfl
    have hof := hcleared demoDocument (by
      change demoDocument ∈ (concludedState unreachable).1.rest.elastic taskMemoryIndex
      rw [hdocs]
      exact List.mem_singleton_self _)
    revert hof
    decide

/-- The worker graduates: the task ends as Merged, with its memory moved. -/
theorem graduated_before_teardown_demo : (concludedState graduating).2.premature = false ∧
    ∀ a ∈ (concludedState graduating).1.store.versions, ByReviewer a →
      Moved (concludedState graduating).1.rest ∧
        Cleared demoTask.name (concludedState graduating).1.rest := by
  have hreached : Reachable (teardownEnv demoTask) demoTask (Cluster.start ⟨fun _ => [], []⟩, {})
      (Pool.idle (concludedState graduating)) := by
    apply concludedState_reachable graduating_answer _ (by decide) (by decide)
    intro w w' hd hasked
    refine ⟨hd, fun h => ?_⟩
    rw [hasked] at h
    cases h
  exact graduated_before_teardown (fun d hd => by cases hd) hreached

end BulletFarm.System
