import BulletFarm.Worker.Calls

/-!
# Elasticsearch as the worker sees it

The documents of each index, and what the calls do to them. A search or a store works,
is refused, or is carried out although the worker is given an exception; a deletion may
be carried out in part. What was written or deleted shows in a search only after the next
refresh, so a search has documents of its own to look at.
-/

namespace BulletFarm.Worker

open Interaction Python Json

set_option autoImplicit false

/-- The documents of each index. -/
abbrev Elastic : Type := String → List Dict

namespace Elastic

def set (es : Elastic) (index : String) (docs : List Dict) : Elastic :=
  fun i => if i = index then docs else es i

def add (es : Elastic) (index : String) (doc : Dict) : Elastic := es.set index (es index ++ [doc])

@[simp] theorem set_same (es : Elastic) (index : String) (docs : List Dict) :
    es.set index docs index = docs := if_pos rfl

theorem set_other (es : Elastic) {index other : String} (docs : List Dict) (h : other ≠ index) :
    es.set index docs other = es other := if_neg h

end Elastic

/-- The index that a bulk action names. -/
def actionIndex (action : Dict) : String := (Value.lookup "_index" action >>= Value.asString).getD ""

/-- The document of a bulk action: all but what it says about itself. -/
def actionSource (action : Dict) : Dict := action.filter fun m => m.1 ∉ ["_index", "_op_type"]

/-- The actions carried out one after another. -/
def Elastic.addActions (es : Elastic) (actions : List Dict) : Elastic :=
  actions.foldl (fun es action => es.add (actionIndex action) (actionSource action)) es

/-- A keyword field holds the value, or a list with the value in it. -/
def hasTerm (field value : String) (d : Dict) : Bool :=
  match Value.lookup field d with
  | some (.str s) => s = value
  | some (.arr items) => items.any fun v => v.asString = some value
  | _ => false

/-- The documents a term query, or a conjunction of term queries, selects. -/
def selects : Value → Option (Dict → Bool)
  | .obj [("term", .obj [(field, .str value)])] => some (hasTerm field value)
  | .obj [("bool", .obj [("must", .arr [.obj [("term", .obj [(f, .str v)])],
      .obj [("term", .obj [(g, .str w)])]])])] => some fun d => hasTerm f v d && hasTerm g w d
  | _ => none

/-- The documents a deletion is meant for; a query of another kind does not occur. -/
def selected (query : Value) : Dict → Bool := (selects query).getD fun _ => false

def ofTask (taskID : String) (d : Dict) : Bool := hasTerm "task_id" taskID d

/-- A document of the task with phase Succeeded. -/
def succeededOf (taskID : String) (d : Dict) : Bool :=
  ofTask taskID d && hasTerm "phase" "Succeeded" d

theorem selects_taskResult (taskID : String) :
    selects (taskResultRequest taskID).query = some (succeededOf taskID) := rfl

inductive Fault where
  | works
  | refused
  | lost
deriving DecidableEq, Repr

/-- The answer and the effect of a call that stores a document. -/
def Fault.Answers {α : Type} (fault : Fault) (es done : Elastic) (r : Except Exc α) (es' : Elastic) :
    Prop :=
  match r with
  | .ok _ => fault = .works ∧ es' = done
  | .error _ => fault = .refused ∧ es' = es ∨ fault = .lost ∧ es' = done

def unavailable : Exc := ⟨.connectionError, "Connection error"⟩

def Fault.respond {α : Type} (fault : Fault) (a : α) (es done : Elastic) : Except Exc α × Elastic :=
  match fault with
  | .works => (.ok a, done)
  | .refused => (.error unavailable, es)
  | .lost => (.error unavailable, done)

theorem Fault.answers_respond {α : Type} (fault : Fault) (a : α) (es done : Elastic) :
    fault.Answers es done (fault.respond a es done).1 (fault.respond a es done).2 := by
  cases fault with
  | works => exact ⟨rfl, rfl⟩
  | refused => exact Or.inl ⟨rfl, rfl⟩
  | lost => exact Or.inr ⟨rfl, rfl⟩

/-- How a deletion goes: whether the worker is given an exception, and which of the documents
that it is meant for it leaves where they are, carried out in part or not at all. -/
structure Deletion where
  raises : Bool
  spares : Dict → Bool

namespace Deletion

def works : Deletion := ⟨false, fun _ => false⟩

def refused : Deletion := ⟨true, fun _ => true⟩

/-- What is left of the documents. -/
structure Leaves (deletion : Deletion) (p : Dict → Bool) (docs left : List Dict) : Prop where
  others : (docs.filter fun d => !p d).Sublist left
  sublist : left.Sublist docs
  spared : ∀ d ∈ docs, p d = true → (d ∈ left ↔ deletion.spares d = true)

theorem Leaves.mem_iff {deletion : Deletion} {p : Dict → Bool} {docs left : List Dict}
    (h : deletion.Leaves p docs left) {d : Dict} :
    d ∈ left ↔ d ∈ docs ∧ (p d = true → deletion.spares d = true) := by
  constructor
  · intro hd
    have hdocs := h.sublist.mem hd
    exact ⟨hdocs, fun hp => (h.spared d hdocs hp).mp hd⟩
  · rintro ⟨hd, hspares⟩
    by_cases hp : p d = true
    · exact (h.spared d hd hp).mpr (hspares hp)
    · apply h.others.mem
      rw [List.mem_filter]
      exact ⟨hd, by simpa using hp⟩

theorem leaves_filter (deletion : Deletion) (p : Dict → Bool) (docs : List Dict) :
    deletion.Leaves p docs (docs.filter fun d => !p d || deletion.spares d) where
  others := List.monotone_filter_right docs fun d hd => by rw [hd, Bool.true_or]
  sublist := List.filter_sublist
  spared d hd hp := by simp [hd, hp]

/-- The deletion of a task's documents. -/
def Removes (deletion : Deletion) (taskID : String) (es es' : Elastic) : Prop :=
  ∃ left, deletion.Leaves (ofTask taskID) (es taskMemoryIndex) left ∧ es' = es.set taskMemoryIndex left

/-- No document of the task is left where it is. -/
def Full (deletion : Deletion) (taskID : String) (es : Elastic) : Prop :=
  ∀ d ∈ es taskMemoryIndex, ofTask taskID d = true → deletion.spares d = false

section Removes
variable {deletion : Deletion} {taskID : String} {es es' : Elastic}

theorem Removes.mem_iff (h : deletion.Removes taskID es es') {d : Dict} : d ∈ es' taskMemoryIndex ↔
    d ∈ es taskMemoryIndex ∧ (ofTask taskID d = true → deletion.spares d = true) := by
  obtain ⟨left, hleft, rfl⟩ := h
  rw [Elastic.set_same]
  exact hleft.mem_iff

theorem Removes.shared (h : deletion.Removes taskID es es') :
    es' sharedMemoryIndex = es sharedMemoryIndex := by
  obtain ⟨left, _, rfl⟩ := h
  exact Elastic.set_other es left (by decide)

/-- A deletion carried out in full is one after which no document of the task is there. -/
theorem Removes.cleared_iff (h : deletion.Removes taskID es es') :
    (∀ d ∈ es' taskMemoryIndex, ofTask taskID d = false) ↔ deletion.Full taskID es := by
  constructor
  · intro hcleared d hd hof
    by_contra hspares
    have hstays := h.mem_iff.mpr ⟨hd, fun _ => by simpa using hspares⟩
    rw [hcleared d hstays] at hof
    cases hof
  · intro hfull d hd
    by_contra hof
    have hof' : ofTask taskID d = true := by simpa using hof
    obtain ⟨hmem, hspares⟩ := h.mem_iff.mp hd
    rw [hfull d hmem hof'] at hspares
    cases hspares hof'

end Removes

end Deletion

/-- How the calls go: searches, stores and deletions. -/
structure Faults where
  search : Fault
  store : Fault
  delete : Deletion

namespace Elastic

/-- The hits are documents the query selects, and there are some if it selects any. -/
def Finds (es : Elastic) (request : SearchRequest) (hits : List Hit) : Prop :=
  hits.length ≤ request.size.toNat ∧ ∀ p, selects request.query = some p →
    (∀ h ∈ hits, h.source ∈ es request.index ∧ p h.source = true) ∧
      (0 < request.size → hits = [] → ∀ d ∈ es request.index, p d = false)

/-- What the calls do. A search sees the documents `seen`, whichever these are. A bulk call is
carried out in part; the checks for an index change no document, whatever they answer. -/
def Serve (faults : Faults) (seen es : Elastic) : (o : WorkerOp) → o.Resp → Elastic → Prop
  | .search request, .ok hits, es' => faults.search = .works ∧ seen.Finds request hits ∧ es' = es
  | .search _, .error _, es' => faults.search ≠ .works ∧ es' = es
  | .indexDocument index doc, r, es' => faults.store.Answers es (es.add index doc) r es'
  | .deleteByQuery index query, r, es' => r.isOk = !faults.delete.raises ∧
      ∃ left, faults.delete.Leaves (selected query) (es index) left ∧ es' = es.set index left
  | .bulk docs, _, es' => ∃ sent, sent.Sublist docs ∧ es' = es.addActions sent
  | _, _, es' => es' = es

/-- Answers as the faults say; a search gives the first documents selected. -/
def respond (faults : Faults) (seen es : Elastic) : (o : WorkerOp) → o.Resp × Elastic
  | .search request =>
    if faults.search = .works then
      (.ok ((((seen request.index).filter ((selects request.query).getD fun _ => true)).take
        request.size.toNat).map fun d => ⟨d, none⟩), es)
    else (.error unavailable, es)
  | .indexDocument index doc => faults.store.respond ⟨"id", index⟩ es (es.add index doc)
  | .deleteByQuery index query =>
    (if faults.delete.raises then .error unavailable else .ok 0, es.set index
      ((es index).filter fun d => !selected query d || faults.delete.spares d))
  | .bulk docs => (.ok (docs.length, []), es.addActions docs)
  | o => (o.benign, es)

theorem serve_respond (faults : Faults) (seen es : Elastic) (o : WorkerOp) :
    Serve faults seen es o (respond faults seen es o).1 (respond faults seen es o).2 := by
  cases o with
  | search request =>
    by_cases hworks : faults.search = .works
    · simp only [respond, if_pos hworks]
      refine ⟨hworks, ⟨?_, ?_⟩, rfl⟩
      · rw [List.length_map]
        exact List.length_take_le _ _
      · intro p hp
        rw [hp]
        constructor
        · intro h hh
          obtain ⟨d, hd, rfl⟩ := List.mem_map.mp hh
          exact List.mem_filter.mp (List.mem_of_mem_take hd)
        · intro hsize hempty d hd
          rw [List.map_eq_nil_iff, List.take_eq_nil_iff] at hempty
          have hfilter := hempty.resolve_left (by omega)
          have hno := List.filter_eq_nil_iff.mp hfilter d hd
          simpa using hno
    · simp only [respond, if_neg hworks]
      exact ⟨hworks, rfl⟩
  | indexDocument index doc => exact Fault.answers_respond _ _ _ _
  | deleteByQuery index query =>
    refine ⟨?_, _, faults.delete.leaves_filter _ _, rfl⟩
    simp only [respond]
    cases faults.delete.raises <;> rfl
  | bulk docs => exact ⟨docs, List.Sublist.refl docs, rfl⟩
  | _ => rfl

end Elastic

/-- The documents of the indices, and what the indices held before, newest first. -/
structure Indices where
  now : Elastic
  past : List Elastic

namespace Indices

def next (w : Indices) (es : Elastic) : Indices := ⟨es, w.now :: w.past⟩

/-- The document is in the index, or has been in it. -/
def Held (w : Indices) (index : String) (d : Dict) : Prop := ∃ es ∈ w.now :: w.past, d ∈ es index

/-- What a search may see before the next refresh: it may miss documents, and it may see
documents that were deleted. -/
def Shows (w : Indices) (seen : Elastic) : Prop := ∀ index, ∀ d ∈ seen index, w.Held index d

theorem Held.now {w : Indices} {index : String} {d : Dict} (h : d ∈ w.now index) : w.Held index d :=
  ⟨w.now, List.mem_cons_self, h⟩

theorem shows_now (w : Indices) : w.Shows w.now := fun _ _ hd => .now hd

theorem Held.next {w : Indices} {index : String} {d : Dict} (h : w.Held index d) (es : Elastic) :
    (w.next es).Held index d := by
  obtain ⟨before, hbefore, hd⟩ := h
  exact ⟨before, List.mem_cons_of_mem _ hbefore, hd⟩

end Indices

/-! ## The helpers of the store -/

section Helpers

variable {σ : Type} {index taskID : String} {mapping : Value} {s s' : σ}
  {tr : List (Event WorkerOp.Resp)} {faults : Faults} {seen es es' : Elastic}

theorem Threads.ensures (hes : Threads (Elastic.Serve faults seen) es tr es')
    (htr : ∀ e ∈ tr, Ensures e.1) : es' = es := by
  apply hes.unchanged
  rintro ⟨o, x⟩ he es₁ hans
  have ho := htr _ he
  cases o with
  | indexExists index => exact hans
  | createIndex index mapping => exact hans
  | _ => exact ho.elim

/-- A function of the store first makes sure of its index. -/
theorem ends_ensureIndex {α : Type} {m : WorkerM σ α} {r : Except Exc α}
    (hend : (ensureIndex index mapping >>= fun _ => m).Ends s tr r s')
    (hes : Threads (Elastic.Serve faults seen) es tr es') :
    ∃ tr₁ tr₂, tr = tr₁ ++ tr₂ ∧ (∀ e ∈ tr₁, Ensures e.1) ∧ m.Ends s tr₂ r s' ∧
      Threads (Elastic.Serve faults seen) es tr₂ es' := by
  obtain ⟨tr₁, tr₂, _, s₁, rfl, h₁, h₂⟩ := ensureIndex_returns.ends_bind hend
  obtain ⟨rfl, htr⟩ := ensureIndex_makes _ _ _ _ h₁
  obtain ⟨es₁, hes₁, hes₂⟩ := hes.of_append
  have hsame := Threads.ensures hes₁ htr
  subst hsame
  exact ⟨tr₁, tr₂, rfl, htr, h₂, hes₂⟩

theorem ends_ensured {α : Type} {o : WorkerOp} {f : o.Resp → Except Exc α} {r : Except Exc α}
    (hend : (ensureIndex index mapping >>= fun _ => Effect.attempt o f : WorkerM σ α).Ends s tr r s')
    (hes : Threads (Elastic.Serve faults seen) es tr es') :
    s' = s ∧ (∀ e ∈ tr, Ensures e.1 ∨ e.1 = o) ∧ ∃ x, ⟨o, x⟩ ∈ tr ∧ r = f x ∧
      Elastic.Serve faults seen es o x es' := by
  obtain ⟨tr₁, tr₂, rfl, htr, hend, hes⟩ := ends_ensureIndex hend hes
  obtain ⟨x, rfl, rfl, rfl⟩ := Effect.ends_attempt hend
  obtain ⟨es₁, hans, hes⟩ := hes.of_cons
  have hsame := hes.of_nil
  subst hsame
  refine ⟨rfl, ?_, x, by simp, rfl, hans⟩
  intro e he
  rcases List.mem_append.mp he with he | he
  · exact Or.inl (htr e he)
  · rw [List.mem_singleton.mp he]
    exact Or.inr rfl

/-- `delete_task_memory` swallows its failures, and deletes the documents of the task as far as
the deletion is carried out. -/
theorem deleteTaskMemory_threads {r : Except Exc Nat}
    (hend : (deleteTaskMemory taskID : WorkerM σ Nat).Ends s tr r s')
    (hes : Threads (Elastic.Serve faults seen) es tr es') :
    (∃ n, r = .ok n) ∧ s' = s ∧
      (∀ e ∈ tr, Ensures e.1 ∨ e.1 = .deleteByQuery taskMemoryIndex (term "task_id" taskID)) ∧
      faults.delete.Removes taskID es es' := by
  rcases Effect.ends_tryCatch hend with ⟨n, rfl, hbody⟩ | ⟨tr₁, tr₂, exc, s₁, rfl, hbody, hrest⟩
  · obtain ⟨rfl, htr, x, _, rfl, hans⟩ := ends_ensured hbody hes
    exact ⟨⟨n, rfl⟩, rfl, htr, hans.2⟩
  · obtain ⟨rfl, rfl, rfl⟩ := Effect.ends_pure hrest
    rw [List.append_nil] at hes ⊢
    obtain ⟨rfl, htr, x, _, hx, hans⟩ := ends_ensured hbody hes
    exact ⟨⟨0, rfl⟩, rfl, htr, hans.2⟩

theorem ends_search {request : SearchRequest} {r : Except Exc (List Hit)}
    (hend : (search request : WorkerM σ (List Hit)).Ends s tr r s')
    (hes : Threads (Elastic.Serve faults seen) es tr es') :
    s' = s ∧ es' = es ∧ (∀ e ∈ tr, e.1 = .search request) ∧
      ((∃ hits, r = .ok hits ∧ faults.search = .works ∧ seen.Finds request hits) ∨
        (∃ exc, r = .error exc) ∧ faults.search ≠ .works) := by
  obtain ⟨x, rfl, hr, rfl⟩ := Effect.ends_attempt hend
  obtain ⟨es₁, hans, hes⟩ := hes.of_cons
  have hsame := hes.of_nil
  subst hsame
  have htr : ∀ e ∈ [(⟨.search request, x⟩ : Event WorkerOp.Resp)], e.1 = .search request := by
    intro e he
    rw [List.mem_singleton.mp he]
  cases x with
  | ok hits => exact ⟨rfl, hans.2.2, htr, Or.inl ⟨hits, hr, hans.1, hans.2.1⟩⟩
  | error exc => exact ⟨rfl, hans.2, htr, Or.inr ⟨⟨exc, hr⟩, hans.1⟩⟩

/-- The search for the task's result works, and sees a Succeeded document of the task. -/
def FindsResult (taskID : String) (faults : Faults) (seen : Elastic) : Prop :=
  faults.search = .works ∧ ∃ d ∈ seen taskMemoryIndex, succeededOf taskID d = true

/-- `get_task_result` gives a Succeeded document of the task if its search finds one. -/
theorem getTaskResult_threads {r : Except Exc (Option Dict)}
    (hend : (getTaskResult taskID : WorkerM σ (Option Dict)).Ends s tr r s')
    (hes : Threads (Elastic.Serve faults seen) es tr es') :
    s' = s ∧ es' = es ∧ (∀ e ∈ tr, Ensures e.1 ∨ e.1 = .search (taskResultRequest taskID)) ∧
      ∃ result, r = .ok result ∧ (∀ d ∈ result,
        faults.search = .works ∧ d ∈ seen taskMemoryIndex ∧ succeededOf taskID d = true) ∧
        (result = none → ¬ FindsResult taskID faults seen) := by
  have hjoin : ∀ {tr₁ tr₂ : List (Event WorkerOp.Resp)}, (∀ e ∈ tr₁, Ensures e.1) →
      (∀ e ∈ tr₂, e.1 = .search (taskResultRequest taskID)) →
      ∀ e ∈ tr₁ ++ tr₂, Ensures e.1 ∨ e.1 = .search (taskResultRequest taskID) := by
    intro tr₁ tr₂ h₁ h₂ e he
    rcases List.mem_append.mp he with he | he
    · exact Or.inl (h₁ e he)
    · exact Or.inr (h₂ e he)
  rcases Effect.ends_tryCatch hend with ⟨result, rfl, hbody⟩ | ⟨tr₀, tr₃, exc, s₀, rfl, hbody, hrest⟩
  · obtain ⟨tr₁, tr₂, rfl, htr, hbody, hes⟩ := ends_ensureIndex hbody hes
    rcases Effect.ends_bind hbody with ⟨tr₃, tr₄, hits, s₁, rfl, h₁, h₂⟩ | ⟨e, he, _⟩
    · obtain ⟨es₁, hes₁, hes₂⟩ := hes.of_append
      obtain ⟨rfl, hr, rfl⟩ := Effect.ends_pure h₂
      cases hr
      have hsame := hes₂.of_nil
      subst hsame
      obtain ⟨rfl, rfl, htr', ⟨hits', hhits, hworks, _, hfinds⟩ | ⟨⟨exc, hexc⟩, _⟩⟩ :=
        ends_search h₁ hes₁
      · cases hhits
        obtain ⟨hsound, hcomplete⟩ := hfinds _ (selects_taskResult taskID)
        refine ⟨rfl, rfl, ?_, _, rfl, ?_, ?_⟩
        · rw [List.append_nil]
          exact hjoin htr htr'
        · intro d hd
          obtain ⟨h, hh, rfl⟩ := Option.map_eq_some_iff.mp hd
          exact ⟨hworks, hsound h (List.mem_of_mem_head? hh)⟩
        · rintro hnone ⟨_, d, hd, hsucceeded⟩
          have hempty : hits = [] := by
            cases hits with
            | nil => rfl
            | cons h rest => cases hnone
          rw [hcomplete Int.one_pos hempty d hd] at hsucceeded
          cases hsucceeded
      · cases hexc
    · cases he
  · obtain ⟨rfl, hr, rfl⟩ := Effect.ends_pure hrest
    subst hr
    rw [List.append_nil] at hes ⊢
    obtain ⟨tr₁, tr₂, rfl, htr, hbody, hes⟩ := ends_ensureIndex hbody hes
    rcases Effect.ends_bind hbody with ⟨tr₃, tr₄, hits, s₁, rfl, _, h₂⟩ | ⟨e, he, h₁⟩
    · have hr := (Effect.ends_pure h₂).2.1
      cases hr
    · obtain ⟨rfl, rfl, htr', ⟨hits, hhits, _⟩ | ⟨_, hfault⟩⟩ := ends_search h₁ hes
      · cases hhits
      · refine ⟨rfl, rfl, hjoin htr htr', none, rfl, ?_, fun _ hfinds => hfault hfinds.1⟩
        intro d hd
        cases hd

/-- `store_shared_knowledge` makes one document, or raises. -/
theorem storeSharedKnowledge_threads {summary context : String} {skills repository : Value}
    {r : Except Exc IndexResult}
    (hend : (storeSharedKnowledge summary context skills repository : WorkerM σ IndexResult).Ends
      s tr r s') (hes : Threads (Elastic.Serve faults seen) es tr es') :
    s' = s ∧ (∀ e ∈ tr, ∀ i q, e.1 ≠ .deleteByQuery i q) ∧ ∃ time x,
      ⟨.indexDocument sharedMemoryIndex (sharedKnowledge summary context skills repository time), x⟩ ∈ tr ∧
        r = x ∧ faults.store.Answers es (es.add sharedMemoryIndex
          (sharedKnowledge summary context skills repository time)) x es' := by
  obtain ⟨tr₁, tr₂, rfl, htr, hend, hes⟩ := ends_ensureIndex hend hes
  rcases Effect.ends_bind hend with ⟨tr₃, tr₄, time, s₁, rfl, h₁, h₂⟩ | ⟨e, _, h₁⟩
  · obtain ⟨x, rfl, hx, rfl⟩ := Effect.ends_attempt h₁
    obtain ⟨y, rfl, hy, rfl⟩ := Effect.ends_attempt h₂
    obtain ⟨es₁, hnow, hes⟩ := hes.of_cons
    obtain ⟨es₂, hans, hes⟩ := hes.of_cons
    have hsame := hes.of_nil
    subst hsame
    have hnow' : es₁ = es := hnow
    subst hnow'
    refine ⟨rfl, ?_, time, y, ?_, hy, hans⟩
    · intro e he i q heq
      simp only [List.mem_append, List.mem_singleton] at he
      rcases he with he | rfl | rfl
      · have ho := htr e he
        rw [heq] at ho
        exact ho
      · cases heq
      · cases heq
    · simp
  · obtain ⟨x, _, hx, _⟩ := Effect.ends_attempt h₁
    cases hx

end Helpers

end BulletFarm.Worker
