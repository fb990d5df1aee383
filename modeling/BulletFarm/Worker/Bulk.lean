import BulletFarm.Worker.Flush

/-!
# What a bulk write counts

`helpers.bulk` sends the documents in chunks, in order. It collects the failures of single
documents, and raises when the request for a whole chunk fails. The documents of the chunks
before that one have been indexed by then, and `bulk_write` counts none of them.
-/

namespace BulletFarm.Worker

open Interaction Python

set_option autoImplicit false

/-! ## Chunks -/

/-- A chunk that was answered: its documents, each with its failure if it has one. -/
structure Chunk where
  answered : List (Dict × Option FailedItem)
  small : answered.length ≤ 500

namespace Chunk

def documents (c : Chunk) : List Dict := c.answered.map Prod.fst

/-- The documents acknowledged as indexed. -/
def indexed (c : Chunk) : List Dict :=
  c.answered.filterMap fun a => if a.2.isNone then some a.1 else none

def failures (c : Chunk) : List FailedItem := c.answered.filterMap Prod.snd

theorem length_documents (c : Chunk) : c.indexed.length + c.failures.length = c.documents.length := by
  obtain ⟨answered, _⟩ := c
  unfold indexed failures documents
  dsimp only
  induction answered with
  | nil => rfl
  | cons a answered ih =>
    have hrest := ih (by simp at *; omega)
    obtain ⟨doc, failure⟩ := a
    cases failure with
    | none =>
      simp at hrest ⊢
      omega
    | some item =>
      simp at hrest ⊢
      omega

end Chunk

/-- How the documents of one call are sent: the chunks that were answered, and what was left
when a request failed, if one did. -/
structure Sending where
  chunks : List Chunk
  failed : Option (List Dict × Exc)

namespace Sending

def documents (s : Sending) : List Dict :=
  s.chunks.flatMap Chunk.documents ++
    match s.failed with
    | some (left, _) => left
    | none => []

/-- The documents that Elasticsearch acknowledged as indexed. -/
def acknowledged (s : Sending) : List Dict := s.chunks.flatMap Chunk.indexed

/-- What `helpers.bulk` gives its caller. -/
def answer (s : Sending) : Except Exc (Nat × List FailedItem) :=
  match s.failed with
  | some (_, exc) => .error exc
  | none => .ok (s.acknowledged.length, s.chunks.flatMap Chunk.failures)

theorem length_chunks (chunks : List Chunk) :
    (chunks.flatMap Chunk.indexed).length + (chunks.flatMap Chunk.failures).length =
      (chunks.flatMap Chunk.documents).length := by
  induction chunks with
  | nil => rfl
  | cons c chunks ih =>
    have hfirst := c.length_documents
    simp only [List.flatMap_cons, List.length_append]
    omega

end Sending

/-! ## The counts -/

/-- A bulk call sends its documents; the log has every sending so far. -/
def SendsInChunks (log : List Sending) : (o : WorkerOp) → o.Resp → List Sending → Prop
  | .bulk docs, answer, log' =>
    ∃ sending : Sending, sending.documents = docs ∧ answer = sending.answer ∧ log' = log ++ [sending]
  | _, _, log' => log' = log

section Counts
variable {σ : Type} {b : MemoryWriteBuffer} {s s' : σ} {tr : List (Event WorkerOp.Resp)}
  {r : Except Exc BulkWriteResult} {log log' : List Sending}

theorem SendsInChunks.unchanged (h : Threads SendsInChunks log tr log') (htr : ∀ e ∈ tr, Ensures e.1) : log' = log := by
  apply h.unchanged
  intro e he log₁ hanswer
  have hop := htr e he
  obtain ⟨o, x⟩ := e
  cases o with
  | indexExists _ => exact hanswer
  | createIndex _ _ => exact hanswer
  | _ => exact hop.elim

theorem bulkResult_sending {sending : Sending} (h : sending.documents = b.allDocs) :
    (bulkResult b sending.answer).successCount + (bulkResult b sending.answer).failedCount =
        b.allDocs.length ∧
      ((bulkResult b sending.answer).successCount = sending.acknowledged.length ↔
        (sending.failed.isSome → sending.acknowledged = [])) := by
  unfold Sending.answer
  cases hfailed : sending.failed with
  | none =>
    have hlength := Sending.length_chunks sending.chunks
    rw [← h, Sending.documents, hfailed, List.append_nil]
    refine ⟨hlength, iff_of_true rfl ?_⟩
    intro hsome
    cases hsome
  | some left =>
    refine ⟨Nat.zero_add _, ?_⟩
    have hcount : (bulkResult b (.error left.2)).successCount = 0 := rfl
    rw [hcount, eq_comm, List.length_eq_zero_iff]
    simp

/-- The counts of a bulk write always add up to the documents of the buffer. The first one is
the number of documents acknowledged, unless the request for a chunk fails after a document
of an earlier chunk was acknowledged. -/
theorem bulkWrite_counts_iff (h : (bulkWrite b).Ends s tr r s') (hsends : Threads SendsInChunks log tr log') :
    ∃ result sendings, r = .ok result ∧ log' = log ++ sendings ∧
      result.successCount + result.failedCount = b.allDocs.length ∧
      (result.successCount = (sendings.flatMap Sending.acknowledged).length ↔
        ∀ sending ∈ sendings, sending.failed.isSome → sending.acknowledged = []) := by
  obtain ⟨rfl, tr₁, tr₂, rfl, hensures, hcall⟩ := bulkWrite_result h
  obtain ⟨log₁, hfirst, hsecond⟩ := hsends.of_append
  rw [SendsInChunks.unchanged hfirst hensures] at hsecond
  split at hcall
  · next hempty =>
    obtain ⟨rfl, rfl⟩ := hcall
    rw [List.isEmpty_iff.mp hempty]
    exact ⟨_, [], rfl, by rw [hsecond.of_nil, List.append_nil], rfl, by simp⟩
  · obtain ⟨answer, rfl, rfl⟩ := hcall
    obtain ⟨log₂, ⟨sending, hdocs, rfl, rfl⟩, hrest⟩ := hsecond.of_cons
    obtain ⟨hsum, hcount⟩ := bulkResult_sending hdocs
    refine ⟨_, [sending], rfl, hrest.of_nil, hsum, ?_⟩
    simpa using hcount

end Counts

/-- Five hundred documents are indexed, and the request for the others times out. -/
def timesOutAfter (docs : List Dict) : Sending where
  chunks := [⟨(docs.take 500).map fun doc => (doc, none), by
    rw [List.length_map, List.length_take]
    omega⟩]
  failed := some (docs.drop 500, ⟨.connectionTimeout, "timed out"⟩)

theorem timesOutAfter_documents (docs : List Dict) : (timesOutAfter docs).documents = docs := by
  simp [timesOutAfter, Sending.documents, Chunk.documents, Function.comp_def]

theorem timesOutAfter_acknowledged (docs : List Dict) :
    (timesOutAfter docs).acknowledged = docs.take 500 := by
  unfold timesOutAfter Sending.acknowledged Chunk.indexed
  rw [List.flatMap_singleton]
  exact List.filterMap_map.trans List.filterMap_some

/-- A buffer of an empty document and others. -/
def bufferOf (others : List Dict) : MemoryWriteBuffer :=
  { MemoryWriteBuffer.new "task-1" 0 with taskMemoryDocs := [] :: others }

theorem bufferOf_length (others : List Dict) : (bufferOf others).allDocs.length = others.length + 1 := by
  simp [bufferOf, MemoryWriteBuffer.allDocs, MemoryWriteBuffer.new]

/-- A bulk write whose second request times out. -/
def cutShort (others : List Dict) :
    List (Event WorkerOp.Resp) × (Except Exc BulkWriteResult × Unit) × List Sending :=
  play (fun log o => match o with
    | .bulk docs => ((timesOutAfter docs).answer, log ++ [timesOutAfter docs])
    | o => (o.benign, log)) ((bulkWrite (bufferOf others) : WorkerM Unit BulkWriteResult).start ()) []

theorem cutShort_sends (others : List Dict) :
    Threads SendsInChunks [] (cutShort others).1 (cutShort others).2.2 := by
  apply threads_play
  intro log o
  cases o with
  | bulk docs => exact ⟨timesOutAfter docs, timesOutAfter_documents docs, rfl, rfl⟩
  | _ => rfl

/-- A buffer of five hundred and one documents. -/
theorem bulkWrite_counts_iff_demo : ∃ result sendings,
    (cutShort (List.replicate 500 [])).2.1.1 = .ok result ∧
      (cutShort (List.replicate 500 [])).2.2 = [] ++ sendings ∧
      result.successCount + result.failedCount = (bufferOf (List.replicate 500 [])).allDocs.length ∧
      (result.successCount = (sendings.flatMap Sending.acknowledged).length ↔
        ∀ sending ∈ sendings, sending.failed.isSome → sending.acknowledged = []) :=
  bulkWrite_counts_iff (runs_play _ _ _) (cutShort_sends _)

/-- The first five hundred of them are indexed, and none is counted. -/
theorem indexed_uncounted : ∃ (b : MemoryWriteBuffer) (tr : List (Event WorkerOp.Resp))
    (result : BulkWriteResult) (log : List Sending),
    (bulkWrite b : WorkerM Unit BulkWriteResult).Ends () tr (.ok result) () ∧ Threads SendsInChunks [] tr log ∧
      result.successCount ≠ (log.flatMap Sending.acknowledged).length := by
  have hrun : ∀ others, (bulkWrite (bufferOf others) : WorkerM Unit BulkWriteResult).Ends ()
      (cutShort others).1 (.ok ⟨0, (bufferOf others).allDocs.length, [.exception "timed out"]⟩) () :=
    fun others => runs_play _ _ _
  have hlog : ∀ others, (cutShort others).2.2 = [timesOutAfter (bufferOf others).allDocs] :=
    fun others => rfl
  refine ⟨_, _, _, _, hrun (List.replicate 500 []), cutShort_sends _, ?_⟩
  rw [hlog, List.flatMap_singleton, timesOutAfter_acknowledged, List.length_take, bufferOf_length,
    List.length_replicate]
  dsimp only
  omega

end BulletFarm.Worker
