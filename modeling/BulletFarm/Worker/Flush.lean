import BulletFarm.Worker.Calls

/-!
# What the flushes of a run index

Bulk writes hand over the whole buffer and leave it as it is. A run has one final
flush, and one more at every tool start that the buffer takes to be late.
-/

namespace BulletFarm.Worker

open Interaction Python

set_option autoImplicit false

/-! ## The documents of a trace -/

def handedBy : Event WorkerOp.Resp → Option (List Dict)
  | ⟨.bulk docs, _⟩ => some docs
  | _ => none

/-- What each bulk call was given. -/
def handed (tr : List (Event WorkerOp.Resp)) : List (List Dict) := tr.filterMap handedBy

/-- The documents an answered bulk call has indexed. -/
def indexedBy : Event WorkerOp.Resp → List Dict
  | ⟨.bulk docs, .ok _⟩ => docs
  | _ => []

def indexed (tr : List (Event WorkerOp.Resp)) : List Dict := tr.flatMap indexedBy

/-- A bulk call is answered with every document indexed. -/
def IndexesAll : Event WorkerOp.Resp → Prop
  | ⟨.bulk docs, answer⟩ => answer = .ok (docs.length, [])
  | _ => True

def AllIndexed (tr : List (Event WorkerOp.Resp)) : Prop := ∀ e ∈ tr, IndexesAll e

/-- A tool starts more than five minutes after `start`, by both readings of the clock. -/
def late (start : Time) : AgentEvent → Prop
  | .toolStart _ elapsed sinceFlush =>
    elapsed - start > seconds MemoryWriteBuffer.maxRuntimeSeconds ∧
      sinceFlush - start > seconds MemoryWriteBuffer.maxRuntimeSeconds
  | _ => False

def StreamsLate (start : Time) : Event WorkerOp.Resp → Prop
  | ⟨.streamEvents _ _, stream⟩ => ∃ event ∈ stream.events, late start event
  | _ => False

/-- Some stream of the agent has a late tool start. -/
def LongRunning (start : Time) (tr : List (Event WorkerOp.Resp)) : Prop :=
  ∃ e ∈ tr, StreamsLate start e

section Traces
variable {start : Time} {tr tr₁ tr₂ : List (Event WorkerOp.Resp)}

theorem handed_append : handed (tr₁ ++ tr₂) = handed tr₁ ++ handed tr₂ := List.filterMap_append

theorem handed_quiet (h : ∀ e ∈ tr, Quiet e.1) : handed tr = [] := by
  apply List.filterMap_eq_nil_iff.mpr
  intro e he
  have hquiet := h e he
  obtain ⟨o, r⟩ := e
  cases o with
  | bulk _ => exact hquiet.elim
  | _ => rfl

@[simp] theorem indexed_nil : indexed [] = [] := rfl

@[simp] theorem indexed_append : indexed (tr₁ ++ tr₂) = indexed tr₁ ++ indexed tr₂ :=
  List.flatMap_append

@[simp] theorem allIndexed_append : AllIndexed (tr₁ ++ tr₂) ↔ AllIndexed tr₁ ∧ AllIndexed tr₂ :=
  List.forall_mem_append

theorem allIndexed_cons {e : Event WorkerOp.Resp} :
    AllIndexed (e :: tr) ↔ IndexesAll e ∧ AllIndexed tr :=
  List.forall_mem_cons

@[simp] theorem longRunning_nil : ¬ LongRunning start [] := by
  rintro ⟨e, he, _⟩
  cases he

@[simp] theorem longRunning_append :
    LongRunning start (tr₁ ++ tr₂) ↔ LongRunning start tr₁ ∨ LongRunning start tr₂ := by
  simp only [LongRunning, List.mem_append, or_and_right, exists_or]

theorem AllIndexed.indexed_eq (hall : AllIndexed tr) : indexed tr = (handed tr).flatten := by
  induction tr with
  | nil => rfl
  | cons e tr ih =>
    obtain ⟨hfirst, hall⟩ := allIndexed_cons.mp hall
    have hrest := ih hall
    obtain ⟨o, r⟩ := e
    cases o with
    | bulk docs =>
      rw [show r = .ok (docs.length, []) from hfirst]
      exact congrArg (docs ++ ·) hrest
    | _ => exact hrest

theorem indexed_quiet (h : ∀ e ∈ tr, Quiet e.1) : indexed tr = [] := by
  apply List.flatMap_eq_nil_iff.mpr
  intro e he
  have hquiet := h e he
  obtain ⟨o, r⟩ := e
  cases o with
  | bulk _ => exact hquiet.elim
  | _ => rfl

theorem not_longRunning_quiet (h : ∀ e ∈ tr, Quiet e.1) : ¬ LongRunning start tr := by
  intro ⟨e, he, hlate⟩
  have hquiet := h e he
  obtain ⟨o, r⟩ := e
  cases o with
  | streamEvents _ _ => exact hquiet
  | _ => exact hlate

theorem longRunning_stream {prompt : String} {tools : List String} {stream : AgentStream} :
    LongRunning start [⟨.streamEvents prompt tools, stream⟩] ↔
      ∃ event ∈ stream.events, late start event := by
  constructor
  · rintro ⟨e, he, hlate⟩
    rw [List.mem_singleton.mp he] at hlate
    exact hlate
  · intro h
    exact ⟨_, List.mem_singleton_self _, h⟩

theorem indexed_now (stamp : Time) : indexed (⟨.now, stamp⟩ :: tr) = indexed tr := rfl

theorem longRunning_now {stamp : Time} :
    LongRunning start (⟨.now, stamp⟩ :: tr) ↔ LongRunning start tr := by
  rw [← List.singleton_append, longRunning_append]
  apply or_iff_right
  rintro ⟨e, he, hlate⟩
  rw [List.mem_singleton.mp he] at hlate
  exact hlate

end Traces

/-! ## The buffer of a run -/

/-- The buffer holds what was added, and its clock has stood still since `start`. -/
structure Kept (start : Time) (s : RunState) : Prop where
  started : s.buffer.startTime = start
  flushed : s.buffer.lastFlushTime = start
  added : s.added.Perm s.buffer.allDocs

/-- What a step does that is not the last flush: it indexes something exactly if a tool
starts late. -/
def Buffers (start : Time) (s : RunState) (tr : List (Event WorkerOp.Resp)) (s' : RunState) : Prop :=
  Kept start s → AllIndexed tr →
    Kept start s' ∧ (indexed tr = [] ↔ ¬ LongRunning start tr)

/-- What a step does that ends with a flush: the whole buffer is indexed last. -/
def Flushes (start : Time) (s : RunState) (tr : List (Event WorkerOp.Resp)) (s' : RunState) : Prop :=
  Kept start s → AllIndexed tr →
    Kept start s' ∧ ∃ earlier, indexed tr = earlier ++ s'.buffer.allDocs ∧
      (earlier = [] ↔ ¬ LongRunning start tr)

section Buffer
variable {start : Time} {s s₁ s₂ s' : RunState} {tr tr₁ tr₂ : List (Event WorkerOp.Resp)}

theorem Buffers.composes (start : Time) : Effect.Composes (Buffers start) where
  refl s := by
    intro hkept _
    exact ⟨hkept, by simp⟩
  trans h₁ h₂ := by
    intro hkept hall
    obtain ⟨hall₁, hall₂⟩ := allIndexed_append.mp hall
    obtain ⟨hkept, hfirst⟩ := h₁ hkept hall₁
    obtain ⟨hkept, hsecond⟩ := h₂ hkept hall₂
    refine ⟨hkept, ?_⟩
    rw [indexed_append, List.append_eq_nil_iff, longRunning_append, not_or, hfirst, hsecond]

theorem Buffers.flushes (h₁ : Buffers start s tr₁ s₁) (h₂ : Flushes start s₁ tr₂ s₂) :
    Flushes start s (tr₁ ++ tr₂) s₂ := by
  intro hkept hall
  obtain ⟨hall₁, hall₂⟩ := allIndexed_append.mp hall
  obtain ⟨hkept, hfirst⟩ := h₁ hkept hall₁
  obtain ⟨hkept, earlier, hdocs, hearlier⟩ := h₂ hkept hall₂
  refine ⟨hkept, indexed tr₁ ++ earlier, ?_, ?_⟩
  · rw [indexed_append, hdocs, List.append_assoc]
  · rw [List.append_eq_nil_iff, longRunning_append, not_or, hfirst, hearlier]

theorem Buffers.of_kept (hquiet : ∀ e ∈ tr, Quiet e.1) (h : Kept start s → Kept start s') :
    Buffers start s tr s' :=
  fun hkept _ => ⟨h hkept, iff_of_true (indexed_quiet hquiet) (not_longRunning_quiet hquiet)⟩

theorem Buffers.of_now {stamp : Time} (h : Kept start s → Kept start s') :
    Buffers start s [⟨.now, stamp⟩] s' := by
  apply Buffers.of_kept _ h
  intro e he
  rw [List.mem_singleton.mp he]
  trivial

theorem Buffers.of_eq (hbuffer : s'.buffer = s.buffer) (hadded : s'.added = s.added) :
    Buffers start s [] s' := by
  apply Buffers.of_kept (fun e he => by cases he)
  intro hkept
  refine ⟨?_, ?_, ?_⟩
  · rw [hbuffer, hkept.started]
  · rw [hbuffer, hkept.flushed]
  · rw [hbuffer, hadded]
    exact hkept.added

theorem Buffers.of_only (h : Only Quiet s tr s') : Buffers start s tr s' := by
  obtain ⟨rfl, hquiet⟩ := h
  exact Buffers.of_kept hquiet id

theorem Makes.buffers {α : Type} {m : RunM α} (hm : Makes Quiet m) :
    Effect.Moves (Buffers start) m :=
  fun _ _ _ _ h => Buffers.of_only (hm _ _ _ _ h)

theorem Kept.addTask (hkept : Kept start s) (stamp : Time) (doc : Dict) :
    Kept start (s.addTask stamp doc) where
  started := hkept.started
  flushed := hkept.flushed
  added := by
    have hadded := hkept.added.append_right [s.buffer.taskDocument stamp doc]
    apply hadded.trans
    change ((_ ++ _) ++ [_]).Perm ((_ ++ [_]) ++ _)
    rw [List.append_assoc, List.append_assoc]
    exact List.perm_append_comm.append_left _

theorem Kept.addShared (hkept : Kept start s) (stamp : Time) (doc : Dict) :
    Kept start (s.addShared stamp doc) where
  started := hkept.started
  flushed := hkept.flushed
  added := by
    have hadded := hkept.added.append_right [MemoryWriteBuffer.sharedDocument stamp doc]
    apply hadded.trans
    change ((_ ++ _) ++ [_]).Perm (_ ++ (_ ++ [_]))
    rw [List.append_assoc]
    exact List.Perm.refl _

theorem addTask_allDocs (s : RunState) (stamp : Time) (doc : Dict) :
    (s.addTask stamp doc).buffer.allDocs ≠ [] := by
  change (_ ++ [_]) ++ _ ≠ []
  simp

end Buffer

/-! ## Adding and flushing -/

section Steps
variable {start : Time} {s s' : RunState} {tr : List (Event WorkerOp.Resp)}

theorem addTaskMemory_ends {doc : Dict} {r : Except Exc Unit}
    (h : (addTaskMemory doc).Ends s tr r s') :
    ∃ stamp, tr = [⟨.now, stamp⟩] ∧ r = .ok () ∧ s' = s.addTask stamp doc := by
  obtain ⟨stamp, tr', rfl, hmodify⟩ := Effect.ends_call_bind h
  obtain ⟨rfl, rfl, rfl⟩ := Effect.ends_modify hmodify
  exact ⟨stamp, rfl, rfl, rfl⟩

theorem addSharedMemory_ends {doc : Dict} {r : Except Exc Unit}
    (h : (addSharedMemory doc).Ends s tr r s') :
    ∃ stamp, tr = [⟨.now, stamp⟩] ∧ r = .ok () ∧ s' = s.addShared stamp doc := by
  obtain ⟨stamp, tr', rfl, hmodify⟩ := Effect.ends_call_bind h
  obtain ⟨rfl, rfl, rfl⟩ := Effect.ends_modify hmodify
  exact ⟨stamp, rfl, rfl, rfl⟩

theorem addTaskMemory_calls {ok : WorkerOp → Prop} (hnow : ok .now) (doc : Dict) :
    Effect.Calls ok (addTaskMemory doc) := by
  intro s tr r s' h e he
  obtain ⟨stamp, rfl, _, _⟩ := addTaskMemory_ends h
  rw [List.mem_singleton.mp he]
  exact hnow

theorem addSharedMemory_calls {ok : WorkerOp → Prop} (hnow : ok .now) (doc : Dict) :
    Effect.Calls ok (addSharedMemory doc) := by
  intro s tr r s' h e he
  obtain ⟨stamp, rfl, _, _⟩ := addSharedMemory_ends h
  rw [List.mem_singleton.mp he]
  exact hnow

theorem addTaskMemory_returns (doc : Dict) : Effect.Returns (addTaskMemory doc) := by
  intro s tr r s' h
  obtain ⟨_, _, hr, _⟩ := addTaskMemory_ends h
  exact ⟨(), hr⟩

theorem addSharedMemory_returns (doc : Dict) : Effect.Returns (addSharedMemory doc) := by
  intro s tr r s' h
  obtain ⟨_, _, hr, _⟩ := addSharedMemory_ends h
  exact ⟨(), hr⟩

theorem addTaskMemory_buffers (doc : Dict) : Effect.Moves (Buffers start) (addTaskMemory doc) := by
  intro s tr r s' h
  obtain ⟨stamp, rfl, _, rfl⟩ := addTaskMemory_ends h
  exact Buffers.of_now fun hkept => hkept.addTask stamp doc

theorem addSharedMemory_buffers (doc : Dict) :
    Effect.Moves (Buffers start) (addSharedMemory doc) := by
  intro s tr r s' h
  obtain ⟨stamp, rfl, _, rfl⟩ := addSharedMemory_ends h
  exact Buffers.of_now fun hkept => hkept.addShared stamp doc

theorem bulkWrite_returns {σ : Type} (b : MemoryWriteBuffer) :
    Effect.Returns (bulkWrite b : WorkerM σ BulkWriteResult) := by
  apply Effect.Returns.bind ensureIndices_returns
  intro _
  apply Effect.Returns.ite (Effect.Returns.pure _)
  exact Effect.Returns.tryCatch fun _ => Effect.Returns.pure _

theorem flush_returns : Effect.Returns flush :=
  Effect.Returns.bind Effect.Returns.get fun s => bulkWrite_returns s.buffer

/-- What a bulk write makes of the answer to its call. -/
def bulkResult (b : MemoryWriteBuffer) : Except Exc (Nat × List FailedItem) → BulkWriteResult
  | .ok (successCount, failedItems) => ⟨successCount, failedItems.length, failedItems.map .item⟩
  | .error exc => ⟨0, b.allDocs.length, [.exception exc.text]⟩

/-- A bulk write makes one call for the whole buffer, if there is something in it. -/
theorem bulkWrite_result {σ : Type} {b : MemoryWriteBuffer} {s s' : σ}
    {r : Except Exc BulkWriteResult} (h : (bulkWrite b).Ends s tr r s') :
    s' = s ∧ ∃ tr₁ tr₂, tr = tr₁ ++ tr₂ ∧ (∀ e ∈ tr₁, Ensures e.1) ∧
      if b.allDocs.isEmpty then tr₂ = [] ∧ r = .ok ⟨0, 0, []⟩
      else ∃ answer, tr₂ = [⟨.bulk b.allDocs, answer⟩] ∧ r = .ok (bulkResult b answer) := by
  obtain ⟨tr₁, tr₂, _, s₁, rfl, h₁, h₂⟩ := ensureIndices_returns.ends_bind h
  obtain ⟨rfl, hensures⟩ := ensureIndices_makes _ _ _ _ h₁
  split at h₂
  · next hempty =>
    obtain ⟨rfl, rfl, rfl⟩ := Effect.ends_pure h₂
    refine ⟨rfl, tr₁, [], rfl, hensures, ?_⟩
    rw [if_pos hempty]
    exact ⟨rfl, rfl⟩
  · next hempty =>
    suffices s' = s₁ ∧ ∃ answer, tr₂ = [⟨.bulk b.allDocs, answer⟩] ∧ r = .ok (bulkResult b answer) by
      refine ⟨this.1, tr₁, tr₂, rfl, hensures, ?_⟩
      rw [if_neg hempty]
      exact this.2
    rcases Effect.ends_tryCatch h₂ with ⟨a, rfl, hbody⟩ | ⟨tr₃, tr₄, exc, s₂, rfl, hraised, hhandler⟩
    · rcases Effect.ends_bind hbody with ⟨tr₃, tr₄, x, s₂, rfl, h₃, h₄⟩ | ⟨e, he, _⟩
      · obtain ⟨answer, rfl, hanswer, rfl⟩ := Effect.ends_attempt h₃
        obtain ⟨rfl, hr, rfl⟩ := Effect.ends_pure h₄
        refine ⟨rfl, answer, rfl, ?_⟩
        rw [show answer = .ok x from hanswer.symm]
        exact hr
      · cases he
    · obtain ⟨rfl, rfl, rfl⟩ := Effect.ends_pure hhandler
      rcases Effect.ends_bind hraised with ⟨_, _, x, _, _, _, h₄⟩ | ⟨e, he, h₃⟩
      · obtain ⟨_, he, _⟩ := Effect.ends_pure h₄
        cases he
      · cases he
        obtain ⟨answer, rfl, hanswer, rfl⟩ := Effect.ends_attempt h₃
        refine ⟨rfl, answer, rfl, ?_⟩
        rw [show answer = .error exc from hanswer.symm]
        rfl

theorem bulkWrite_ends {σ : Type} {b : MemoryWriteBuffer} {s s' : σ} {r : Except Exc BulkWriteResult}
    (h : (bulkWrite b).Ends s tr r s') :
    s' = s ∧ handed tr = (if b.allDocs.isEmpty then [] else [b.allDocs]) ∧
      ∀ start, ¬ LongRunning start tr := by
  obtain ⟨rfl, tr₁, tr₂, rfl, hensures, hcall⟩ := bulkWrite_result h
  have hquiet : ∀ e ∈ tr₁, Quiet e.1 := fun e he => (hensures e he).looks.quiet
  have hlate : ∀ start, LongRunning start (tr₁ ++ tr₂) → LongRunning start tr₂ := by
    intro start hboth
    exact (longRunning_append.mp hboth).resolve_left (not_longRunning_quiet hquiet)
  rw [handed_append, handed_quiet hquiet, List.nil_append]
  split at hcall
  · next hempty =>
    obtain ⟨rfl, _⟩ := hcall
    rw [if_pos hempty]
    exact ⟨rfl, rfl, fun start hlong => longRunning_nil (hlate start hlong)⟩
  · next hempty =>
    obtain ⟨answer, rfl, _⟩ := hcall
    rw [if_neg hempty]
    refine ⟨rfl, rfl, ?_⟩
    intro start hlong
    obtain ⟨e, he, hstreams⟩ := hlate start hlong
    rw [List.mem_singleton.mp he] at hstreams
    exact hstreams

theorem flush_ends {r : Except Exc BulkWriteResult} (h : flush.Ends s tr r s') :
    s' = s ∧ handed tr = (if s.buffer.allDocs.isEmpty then [] else [s.buffer.allDocs]) ∧
      ∀ start, ¬ LongRunning start tr :=
  bulkWrite_ends (Effect.ends_get_bind h)

theorem flush_indexes {r : Except Exc BulkWriteResult} (h : flush.Ends s tr r s')
    (hall : AllIndexed tr) : indexed tr = s.buffer.allDocs := by
  obtain ⟨_, hhanded, _⟩ := flush_ends h
  rw [hall.indexed_eq, hhanded]
  split
  · next hempty => exact (List.isEmpty_iff.mp hempty).symm
  · rw [List.flatten_singleton]

/-- A document is added and the buffer flushed, and neither raises. -/
theorem addTaskMemory_flush_ends {α : Type} {doc : Dict} {a : α} {r : Except Exc α}
    (h : Effect.Ends (do addTaskMemory doc; let _ ← flush; pure a) s tr r s') :
    ∃ stamp tr' r', tr = ⟨.now, stamp⟩ :: tr' ∧ flush.Ends (s.addTask stamp doc) tr' r' s' := by
  obtain ⟨tr₁, tr₂, _, s₁, rfl, h₁, h⟩ := (addTaskMemory_returns doc).ends_bind h
  obtain ⟨tr₂, tr₃, _, s₂, rfl, h₂, h₃⟩ := flush_returns.ends_bind h
  obtain ⟨rfl, _, rfl⟩ := Effect.ends_pure h₃
  obtain ⟨stamp, rfl, _, rfl⟩ := addTaskMemory_ends h₁
  rw [List.append_nil]
  exact ⟨stamp, tr₂, _, rfl, h₂⟩

theorem flush_flushes {r : Except Exc BulkWriteResult} (h : flush.Ends s tr r s') :
    Flushes start s tr s' := by
  intro hkept hall
  have hdocs := flush_indexes h hall
  obtain ⟨rfl, _, hlate⟩ := flush_ends h
  exact ⟨hkept, [], hdocs, iff_of_true rfl (hlate start)⟩

theorem flush_closes : Effect.Closes (Buffers start) (Flushes start) flush := by
  intro s tr r s' h
  refine ⟨fun _ _ => flush_flushes h, fun e he => ?_⟩
  obtain ⟨a, ha⟩ := flush_returns _ _ _ _ h
  rw [ha] at he
  cases he

end Steps

/-! ## The stream -/

/-- A step without a stream of its own that indexes something exactly if `p`. -/
def IndexesIf (start : Time) (p : Prop) (s : RunState) (tr : List (Event WorkerOp.Resp))
    (s' : RunState) : Prop :=
  Kept start s → AllIndexed tr →
    Kept start s' ∧ ¬ LongRunning start tr ∧ (indexed tr = [] ↔ ¬ p)

section Stream
variable {start : Time} {request : TaskRequest} {s s₁ s' : RunState}
  {tr tr₁ tr₂ : List (Event WorkerOp.Resp)} {p q : Prop}

theorem Buffers.indexesIf (h : Buffers start s tr s') (hlate : ¬ LongRunning start tr) (hp : ¬ p) :
    IndexesIf start p s tr s' := by
  intro hkept hall
  obtain ⟨hkept, hindexed⟩ := h hkept hall
  exact ⟨hkept, hlate, iff_of_true (hindexed.mpr hlate) hp⟩

theorem IndexesIf.append (h₁ : IndexesIf start p s tr₁ s₁) (h₂ : IndexesIf start q s₁ tr₂ s') :
    IndexesIf start (p ∨ q) s (tr₁ ++ tr₂) s' := by
  intro hkept hall
  obtain ⟨hall₁, hall₂⟩ := allIndexed_append.mp hall
  obtain ⟨hkept, hlate₁, hfirst⟩ := h₁ hkept hall₁
  obtain ⟨hkept, hlate₂, hsecond⟩ := h₂ hkept hall₂
  refine ⟨hkept, ?_, ?_⟩
  · rw [longRunning_append]
    exact not_or.mpr ⟨hlate₁, hlate₂⟩
  · rw [indexed_append, List.append_eq_nil_iff, hfirst, hsecond, not_or]

theorem shouldFlushIntermediate_iff (hkept : Kept start s) (name : String)
    (elapsed sinceFlush : Time) : s.buffer.shouldFlushIntermediate elapsed sinceFlush = true ↔
      late start (.toolStart name elapsed sinceFlush) := by
  unfold MemoryWriteBuffer.shouldFlushIntermediate late
  rw [hkept.started, hkept.flushed, Bool.and_eq_true, decide_eq_true_iff, decide_eq_true_iff]

/-- A checkpoint is added and the buffer flushed, so that at least the checkpoint is indexed. -/
theorem checkpoint_indexes {α : Type} {doc : Dict} {a : α} {r : Except Exc α}
    (h : Effect.Ends (do addTaskMemory doc; let _ ← flush; pure a) s tr r s')
    (hkept : Kept start s) (hall : AllIndexed tr) :
    Kept start s' ∧ ¬ LongRunning start tr ∧ indexed tr ≠ [] := by
  obtain ⟨stamp, tr', _, rfl, hflush⟩ := addTaskMemory_flush_ends h
  have hdocs := flush_indexes hflush (allIndexed_cons.mp hall).2
  obtain ⟨rfl, _, hlate⟩ := flush_ends hflush
  refine ⟨hkept.addTask stamp doc, ?_, ?_⟩
  · rw [longRunning_now]
    exact hlate start
  · rw [indexed_now, hdocs]
    exact addTask_allDocs s stamp doc

theorem handleEvent_returns (stepCount : Nat) (event : AgentEvent) :
    Effect.Returns (handleEvent request stepCount event) := by
  have hpure : ∀ n, Effect.Returns (pure n : RunM Nat) := Effect.Returns.pure
  cases event with
  | toolStart name elapsed sinceFlush =>
    apply Effect.Returns.bind Effect.Returns.get
    intro s
    apply Effect.Returns.ite _ (hpure _)
    apply Effect.Returns.bind (addTaskMemory_returns _)
    intro _
    exact Effect.Returns.bind flush_returns fun _ => hpure _
  | chatModelEnd output =>
    cases output with
    | none => exact hpure _
    | some output => exact Effect.Returns.bind (Effect.Returns.modify _) fun _ => hpure _
  | toolEnd => exact hpure _
  | other kind => exact hpure _

theorem handleEvent_indexes {stepCount : Nat} {event : AgentEvent} {r : Except Exc Nat}
    (h : (handleEvent request stepCount event).Ends s tr r s') :
    IndexesIf start (late start event) s tr s' := by
  have hpure : ∀ {n s s'} {r : Except Exc Nat}, Effect.Ends (pure n : RunM Nat) s tr r s' →
      ¬ late start event → IndexesIf start (late start event) s tr s' := by
    intro n s s' r h hlate
    obtain ⟨rfl, _, rfl⟩ := Effect.ends_pure h
    exact ((Buffers.composes start).refl _).indexesIf longRunning_nil hlate
  cases event with
  | toolStart name elapsed sinceFlush =>
    have h₂ := Effect.ends_get_bind h
    split at h₂
    · next hflush =>
      intro hkept hall
      obtain ⟨hkept', hlate, hindexed⟩ := checkpoint_indexes h₂ hkept hall
      refine ⟨hkept', hlate, iff_of_false hindexed ?_⟩
      exact not_not_intro ((shouldFlushIntermediate_iff hkept name elapsed sinceFlush).mp hflush)
    · next hflush =>
      intro hkept hall
      apply hpure h₂ _ hkept hall
      exact fun hlate => hflush ((shouldFlushIntermediate_iff hkept name elapsed sinceFlush).mpr hlate)
  | chatModelEnd output =>
    cases output with
    | none => exact hpure h id
    | some output =>
      have hmodify := Effect.ends_modify_bind h
      obtain ⟨rfl, _, rfl⟩ := Effect.ends_pure hmodify
      exact Buffers.indexesIf (Buffers.of_eq rfl rfl) longRunning_nil id
  | toolEnd => exact hpure h id
  | other kind => exact hpure h id

theorem handleEvents_indexes {events : List AgentEvent} {stepCount : Nat} {r : Except Exc Unit}
    (h : (handleEvents request stepCount events).Ends s tr r s') :
    IndexesIf start (∃ event ∈ events, late start event) s tr s' := by
  induction events generalizing stepCount s tr with
  | nil =>
    obtain ⟨rfl, _, rfl⟩ := Effect.ends_pure h
    apply Buffers.indexesIf ((Buffers.composes start).refl _) longRunning_nil
    rintro ⟨event, hevent, _⟩
    cases hevent
  | cons event rest ih =>
    obtain ⟨tr₁, tr₂, n, s₁, rfl, h₁, h₂⟩ := (handleEvent_returns stepCount event).ends_bind h
    have hboth := (handleEvent_indexes h₁).append (ih h₂)
    rw [List.exists_mem_cons_iff]
    exact hboth

end Stream

/-! ## The run -/

section Run
variable {start : Time} {request : TaskRequest} {s s' : RunState} {tr : List (Event WorkerOp.Resp)}

theorem runAttempt_buffers (prompt : String) :
    Effect.Moves (Buffers start) (runAttempt request prompt) := by
  have hcomposes := Buffers.composes start
  intro s tr r s' h
  obtain ⟨stream, tr', rfl, hrest⟩ := Effect.ends_call_bind h
  have hstream : ∀ {tr₁ s₁}, IndexesIf start (∃ event ∈ stream.events, late start event) s tr₁ s₁ →
      Buffers start s (⟨.streamEvents prompt (workspaceTools request), stream⟩ :: tr₁) s₁ := by
    intro tr₁ s₁ hindexes hkept hall
    obtain ⟨hkept, hlate, hindexed⟩ := hindexes hkept (allIndexed_cons.mp hall).2
    refine ⟨hkept, ?_⟩
    rw [← List.singleton_append, longRunning_append, longRunning_stream, or_iff_left hlate]
    exact hindexed
  rcases Effect.ends_bind hrest with ⟨tr₁, tr₂, _, s₁, rfl, h₁, h₂⟩ | ⟨e, rfl, h₁⟩
  · apply hcomposes.trans (hstream (handleEvents_indexes h₁))
    split at h₂
    · exact Effect.Moves.throw hcomposes _ _ _ _ _ h₂
    · refine Effect.Moves.bind hcomposes (Effect.Moves.get hcomposes) (fun s => ?_) _ _ _ _ h₂
      apply Effect.Moves.ite
      · intro _
        apply Effect.Moves.bind hcomposes (Makes.buffers (Makes.attempt trivial _))
        exact fun messages => Effect.Moves.modify fun s => Buffers.of_eq rfl rfl
      · exact fun _ => Effect.Moves.pure hcomposes ()
  · exact hstream (handleEvents_indexes h₁)

theorem runAgent_buffers (notify : Bool) (prompt : String) (remaining : Nat) :
    Effect.Moves (Buffers start) (runAgent notify request prompt remaining) :=
  runAgent_attempts (Buffers.composes start) (fun _ _ => Buffers.of_eq rfl rfl)
    (runAttempt_buffers prompt) (fun hm => Makes.buffers (hm.mono fun _ h => h.1.quiet)) notify remaining

theorem Makes.closes {α β : Type} {m : RunM α} {f : α → RunM β} (hm : Makes Quiet m)
    (hf : ∀ a, Effect.Closes (Buffers start) (Flushes start) (f a)) :
    Effect.Closes (Buffers start) (Flushes start) (m >>= f) :=
  Effect.Closes.bind (Buffers.composes start) Buffers.flushes hm.buffers hf

theorem Buffers.closes {α β : Type} {m : RunM α} {f : α → RunM β}
    (hm : Effect.Moves (Buffers start) m)
    (hf : ∀ a, Effect.Closes (Buffers start) (Flushes start) (f a)) :
    Effect.Closes (Buffers start) (Flushes start) (m >>= f) :=
  Effect.Closes.bind (Buffers.composes start) Buffers.flushes hm hf

theorem handleIncomplete_closes (notify : Bool) (repoInfo : RepoInfo) (output : String)
    (uniqueTools : List String) : Effect.Closes (Buffers start) (Flushes start)
      (handleIncomplete notify request repoInfo output uniqueTools) := by
  apply Makes.closes (report_makes Locally.quiet _ _ _ _)
  intro _
  apply Makes.closes (Makes.attempt trivial _)
  intro _
  apply Makes.closes (Makes.attempt trivial _)
  intro _
  apply Makes.closes (Makes.attempt trivial _)
  intro _
  apply Makes.closes (Makes.attempt trivial _)
  intro _
  apply Makes.closes ((incompletePR_makes _ _ _).mono fun _ => OnGitHub.quiet)
  intro prURL
  apply Makes.closes ((commentOnPR_makes _ _).mono fun _ => Converses.quiet)
  intro _
  apply Buffers.closes (addTaskMemory_buffers _)
  intro _
  exact Effect.Closes.bind_pure _ flush_closes

theorem createOrUpdatePR_buffers (repoInfo : RepoInfo) (output : String) (files : List String) :
    Effect.Moves (Buffers start) (createOrUpdatePR request repoInfo output files) := by
  have hcomposes := Buffers.composes start
  apply Effect.Moves.ite
  · intro _
    apply Effect.Moves.bind hcomposes
    · exact Effect.Moves.modify fun s => Buffers.of_eq rfl rfl
    · intro _
      apply Effect.Moves.bind hcomposes
      · exact Makes.buffers ((commentOnPR_makes _ _).mono fun _ => Converses.quiet)
      · exact fun _ => Effect.Moves.pure hcomposes ()
  · intro _
    apply Effect.Moves.bind hcomposes
    · exact Makes.buffers ((createDraftPR_makes _ _ _ _ _ _ _).mono fun _ => OnGitHub.quiet)
    · exact fun url => Effect.Moves.modify fun s => Buffers.of_eq rfl rfl

theorem finishSucceeded_closes (notify : Bool) (repoInfo : RepoInfo) (output : String)
    (uniqueTools : List String) : Effect.Closes (Buffers start) (Flushes start)
      (finishSucceeded notify request repoInfo output uniqueTools) := by
  apply Makes.closes (report_makes Locally.quiet _ _ _ _)
  intro _
  apply Makes.closes (Makes.attempt trivial _)
  intro _
  apply Makes.closes (Makes.attempt trivial _)
  intro _
  apply Makes.closes (report_makes Locally.quiet _ _ _ _)
  intro _
  apply Makes.closes (filesModified_makes Locally.quiet _)
  intro files
  apply Buffers.closes (createOrUpdatePR_buffers _ _ _)
  intro _
  apply Makes.closes (report_makes Locally.quiet _ _ _ _)
  intro _
  apply Buffers.closes (Effect.Moves.get (Buffers.composes start))
  intro s
  apply Buffers.closes (addTaskMemory_buffers _)
  intro _
  apply Effect.Closes.ite
  · apply Buffers.closes (addSharedMemory_buffers _)
    intro _
    apply Makes.closes (report_makes Locally.quiet _ _ _ _)
    exact fun _ => Effect.Closes.bind_pure _ flush_closes
  · apply Makes.closes (report_makes Locally.quiet _ _ _ _)
    exact fun _ => Effect.Closes.bind_pure _ flush_closes

/-- Up to an ending the memory is buffered. -/
theorem Buffers.leads (start : Time) : Leads (Buffers start) (fun s tr r s' =>
    (∀ status, r = .ok status → Flushes start s tr s') ∧ ∀ e, r = .error e → Buffers start s tr s') where
  composes := Buffers.composes start
  raise h := by
    refine ⟨fun status hstatus => ?_, fun _ _ => h⟩
    cases hstatus
  front hfirst h := ⟨fun status hstatus => Buffers.flushes hfirst (h.1 status hstatus),
    fun e he => (Buffers.composes start).trans hfirst (h.2 e he)⟩

theorem workOn_closes (notify : Bool) :
    Effect.Closes (Buffers start) (Flushes start) (workOn notify request) :=
  (Buffers.leads start).workOn (fun hm => Makes.buffers (hm.mono fun _ h => h.1.quiet))
    (runAgent_buffers notify) (handleIncomplete_closes notify) (finishSucceeded_closes notify)

theorem attemptTask_closes (githubToken : String) (notify : Bool) :
    Effect.Closes (Buffers start) (Flushes start) (attemptTask githubToken notify request) :=
  (Buffers.leads start).attemptTask githubToken
    (fun hm => Makes.buffers (hm.mono fun _ h => h.1.quiet)) (workOn_closes notify)

theorem recordFailure_ends {exc : Exc} {r : Except Exc Unit}
    (h : (recordFailure request exc).Ends s tr r s') : ∃ stamp tr' r', tr = ⟨.now, stamp⟩ :: tr' ∧
      flush.Ends (s.addTask stamp (failureDoc request exc)) tr' r' s' := by
  rcases Effect.ends_tryCatch h with ⟨a, _, hbody⟩ | ⟨tr₁, tr₂, e, s₁, rfl, hraised, hhandler⟩
  · exact addTaskMemory_flush_ends hbody
  · obtain ⟨rfl, _, rfl⟩ := Effect.ends_pure hhandler
    rw [List.append_nil]
    exact addTaskMemory_flush_ends hraised

theorem recordFailure_returns (exc : Exc) : Effect.Returns (recordFailure request exc) :=
  Effect.Returns.tryCatch fun _ => Effect.Returns.pure ()

theorem handleFailure_returns (exc : Exc) : Effect.Returns (handleFailure request exc) := by
  apply Effect.Returns.bind (recordFailure_returns exc)
  intro _
  exact Effect.Returns.bind Effect.Returns.get fun _ => Effect.Returns.pure _

theorem handleFailure_failed {exc : Exc} {r : Except Exc TaskStatus}
    (h : (handleFailure request exc).Ends s tr r s') :
    ∃ status, r = .ok status ∧ status.phase = .failed := by
  have hfailed : Effect.Gives (fun status => status.phase = .failed) (handleFailure request exc) := by
    apply Effect.Gives.bind
    intro _
    apply Effect.Gives.bind
    exact fun s => Effect.Gives.pure rfl
  obtain ⟨status, rfl⟩ := handleFailure_returns exc _ _ _ _ h
  exact ⟨status, rfl, hfailed _ _ _ _ h⟩

theorem handleFailure_ends {exc : Exc} {r : Except Exc TaskStatus}
    (h : (handleFailure request exc).Ends s tr r s') : ∃ stamp tr' r', tr = ⟨.now, stamp⟩ :: tr' ∧
      flush.Ends (s.addTask stamp (failureDoc request exc)) tr' r' s' := by
  obtain ⟨tr₁, tr₂, _, s₁, rfl, h₁, h₂⟩ := (recordFailure_returns exc).ends_bind h
  have hget := Effect.ends_get_bind h₂
  obtain ⟨rfl, _, rfl⟩ := Effect.ends_pure hget
  rw [List.append_nil]
  exact recordFailure_ends h₁

theorem handleFailure_flushes {exc : Exc} {r : Except Exc TaskStatus}
    (h : (handleFailure request exc).Ends s tr r s') : Flushes start s tr s' := by
  obtain ⟨stamp, tr', _, rfl, hflush⟩ := handleFailure_ends h
  have hadd : Buffers start s [⟨.now, stamp⟩] (s.addTask stamp (failureDoc request exc)) :=
    Buffers.of_now fun hkept => hkept.addTask stamp _
  exact hadd.flushes (flush_flushes hflush)

/-- Every run ends with a flush. -/
theorem runBuffered_flushes {githubToken : String} {notify : Bool} {r : Except Exc TaskStatus}
    (h : (runBuffered githubToken notify request).Ends s tr r s') : Flushes start s tr s' := by
  rcases Effect.ends_tryCatch h with ⟨a, _, h₁⟩ | ⟨tr₁, tr₂, exc, s₁, rfl, h₁, h₂⟩
  · exact (attemptTask_closes _ _ _ _ _ _ h₁).1 a rfl
  · have hfirst : Buffers start s tr₁ s₁ := (attemptTask_closes _ _ _ _ _ _ h₁).2 exc rfl
    exact hfirst.flushes (handleFailure_flushes h₂)

theorem Kept.begin (request : TaskRequest) (start : Time) : Kept start (.begin request start) where
  started := rfl
  flushed := rfl
  added := List.Perm.refl _

end Run

section Indexed
variable {githubToken : String} {notify : Bool} {request : TaskRequest}
  {tr : List (Event WorkerOp.Resp)} {r : Except Exc TaskStatus} {s' : RunState}

/-- In a run whose bulk calls index every document, each document added to the buffer is
indexed once exactly if no tool starts late. -/
theorem indexed_once_iff (h : (runTask githubToken notify request).Runs tr (r, s'))
    (hall : AllIndexed tr) :
    ∃ start rest, tr = ⟨.now, start⟩ :: rest ∧
      ((indexed tr).Perm s'.added ↔ ¬ LongRunning start tr) := by
  obtain ⟨start, rest, rfl, hrun⟩ := Program.runs_call.mp h
  refine ⟨start, rest, rfl, ?_⟩
  rw [indexed_now, longRunning_now]
  obtain ⟨hkept, earlier, hdocs, hearlier⟩ :=
    runBuffered_flushes hrun (Kept.begin request start) (allIndexed_cons.mp hall).2
  rw [← hearlier, hdocs]
  constructor
  · intro hperm
    have hlength := (hperm.trans hkept.added).length_eq
    rw [List.length_append] at hlength
    exact List.eq_nil_of_length_eq_zero (by omega)
  · intro hnil
    rw [hnil, List.nil_append]
    exact hkept.added.symm

end Indexed

/-! ## Runs with answers that never fail -/

def demoRequest : TaskRequest where
  taskID := "task-1"
  agentRef := "agent"
  repository := "octo/repo"
  prompt := "Add a page"

/-- The agent edits the code, with its tool starting at `start` by both readings, and says
that it is done. -/
def demoStream (start : Time) : AgentStream where
  events := [.toolStart "code_edit" start start,
    .chatModelEnd (some { content := .text "Done", toolCalls := ["code_edit"] })]
  error := none

/-- Nothing fails, and the agent changes a file. -/
def demoAnswers (start : Time) : (o : WorkerOp) → o.Resp
  | .streamEvents _ _ => demoStream start
  | .run cmd _ => .ok ⟨0, if cmd = ["git", "diff", "--cached", "--stat"] then "page.py | 1 +" else ""⟩
  | o => o.benign

def demoRun (start : Time) :
    List (Event WorkerOp.Resp) × (Except Exc TaskStatus × RunState) × Unit :=
  play (fun w o => (demoAnswers start o, w)) (runTask "token" false demoRequest) ()

theorem allIndexed_demo (start : Time) {α : Type} (p : Program WorkerOp WorkerOp.Resp α) :
    AllIndexed (play (fun (w : Unit) o => (demoAnswers start o, w)) p ()).1 := by
  induction p with
  | ret a =>
    intro e he
    cases he
  | call o next ih =>
    refine allIndexed_cons.mpr ⟨?_, ih _⟩
    cases o with
    | bulk _ => rfl
    | _ => trivial

/-- A tool that starts at five minutes sharp. -/
theorem indexed_once_demo : ∃ start rest, (demoRun (seconds 300)).1 = ⟨.now, start⟩ :: rest ∧
    ((indexed (demoRun (seconds 300)).1).Perm (demoRun (seconds 300)).2.1.2.added ↔
      ¬ LongRunning start (demoRun (seconds 300)).1) :=
  indexed_once_iff (runs_play _ _ _) (allIndexed_demo _ _)

/-- A tool that starts a second later: its checkpoint is indexed twice. -/
theorem checkpoint_indexed_twice : ∃ tr r s', (runTask "token" false demoRequest).Runs tr (r, s') ∧
    AllIndexed tr ∧ ¬ (indexed tr).Perm s'.added := by
  refine ⟨_, _, _, runs_play _ _ (), allIndexed_demo (seconds 301) _, ?_⟩
  intro hperm
  have hlength : (indexed (demoRun (seconds 301)).1).length =
      (demoRun (seconds 301)).2.1.2.added.length := hperm.length_eq
  revert hlength
  decide +kernel

end BulletFarm.Worker
