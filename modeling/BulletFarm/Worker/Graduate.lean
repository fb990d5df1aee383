import BulletFarm.Worker.Elastic

/-!
# Graduation and the knowledge of a task

`graduate_to_shared` deletes the task's documents after it has stored what they
amount to. A search that fails, or does not see the result yet, looks to it like a task
without one, so it deletes them then as well; otherwise nothing is lost.
-/

namespace BulletFarm.Worker

open Interaction Python

set_option autoImplicit false

/-- A document made from a Succeeded document of the task was stored. -/
def StoredKnowledge (taskID prState : String) (seen : Elastic) (tr : List (Event WorkerOp.Resp)) :
    Prop :=
  ∃ d ∈ seen taskMemoryIndex, succeededOf taskID d = true ∧ ∃ k time x,
    graduationKnowledge d prState = .ok k ∧ ⟨.indexDocument sharedMemoryIndex
      (sharedKnowledge k.summary k.context k.skills k.repository time), .ok x⟩ ∈ tr

/-- If a Succeeded document of the task is gone, what one amounts to was stored
before anything was deleted. -/
def KeepsKnowledge (taskID prState : String) (seen es es' : Elastic)
    (tr : List (Event WorkerOp.Resp)) : Prop :=
  (∃ d ∈ es taskMemoryIndex, succeededOf taskID d = true ∧ d ∉ es' taskMemoryIndex) →
    ∃ before after, tr = before ++ after ∧ (∀ e ∈ before, ∀ i q, e.1 ≠ .deleteByQuery i q) ∧
      StoredKnowledge taskID prState seen before

variable {σ : Type} {taskID prState : String} {s s' : σ} {tr : List (Event WorkerOp.Resp)}
  {faults : Faults} {seen es es' : Elastic}

theorem ofTask_of_succeededOf {d : Dict} (h : succeededOf taskID d = true) :
    ofTask taskID d = true := by
  unfold succeededOf at h
  simp only [Bool.and_eq_true] at h
  exact h.1

theorem ne_nil_of_succeededOf {d : Dict} (h : succeededOf taskID d = true) : d ≠ [] := by
  rintro rfl
  cases h

theorem add_shared_task (es : Elastic) (doc : Dict) :
    es.add sharedMemoryIndex doc taskMemoryIndex = es taskMemoryIndex :=
  Elastic.set_other es _ (by decide)

theorem add_shared_shared (es : Elastic) (doc : Dict) :
    es.add sharedMemoryIndex doc sharedMemoryIndex = es sharedMemoryIndex ++ [doc] :=
  Elastic.set_same es _ _

theorem not_delete_of_search {request : SearchRequest} {tr : List (Event WorkerOp.Resp)}
    (h : ∀ e ∈ tr, Ensures e.1 ∨ e.1 = .search request) :
    ∀ e ∈ tr, ∀ i q, e.1 ≠ .deleteByQuery i q := by
  intro e he i q heq
  rcases h e he with ho | ho
  · rw [heq] at ho
    exact ho
  · rw [heq] at ho
    cases ho

/-- Without a result the documents of the task are deleted. -/
theorem graduateResult_nothing {r : Except Exc Bool}
    (hend : (graduateResult taskID prState none : WorkerM σ Bool).Ends s tr r s')
    (hes : Threads (Elastic.Serve faults seen) es tr es') : r = .ok false ∧
      (∀ e ∈ tr, Ensures e.1 ∨ e.1 = .deleteByQuery taskMemoryIndex (term "task_id" taskID)) ∧
      faults.delete.Removes taskID es es' := by
  rcases Effect.ends_bind hend with ⟨tr₁, tr₂, n, s₁, rfl, h₁, h₂⟩ | ⟨e, _, h₁⟩
  · obtain ⟨rfl, rfl, _⟩ := Effect.ends_pure h₂
    rw [List.append_nil] at hes ⊢
    obtain ⟨_, _, htr, hes'⟩ := deleteTaskMemory_threads h₁ hes
    exact ⟨rfl, htr, hes'⟩
  · obtain ⟨⟨n, hn⟩, _⟩ := deleteTaskMemory_threads h₁ hes
    cases hn

/-- What becomes of a result: no document can be made of it, its document is refused, its
document is stored though the call fails, or it is stored and the task's documents go. -/
inductive GraduationEnds (taskID prState : String) (d : Dict) (faults : Faults) (es : Elastic) :
    List (Event WorkerOp.Resp) → Except Exc Bool → Elastic → Prop where
  | unfit {e : Exc} : graduationKnowledge d prState = .error e →
      GraduationEnds taskID prState d faults es [] (.error e) es
  | refused {k : Knowledge} {tr : List (Event WorkerOp.Resp)} {e : Exc} :
      graduationKnowledge d prState = .ok k → faults.store = .refused →
      GraduationEnds taskID prState d faults es tr (.error e) es
  | lost {k : Knowledge} {time : Time} {tr : List (Event WorkerOp.Resp)} {e : Exc} :
      graduationKnowledge d prState = .ok k → faults.store = .lost →
      GraduationEnds taskID prState d faults es tr (.error e) (es.add sharedMemoryIndex
        (sharedKnowledge k.summary k.context k.skills k.repository time))
  | stored {k : Knowledge} {time : Time} {x : IndexResult} {before after : List (Event WorkerOp.Resp)}
      {es' : Elastic} : graduationKnowledge d prState = .ok k → faults.store = .works →
      (∀ e ∈ before, ∀ i q, e.1 ≠ .deleteByQuery i q) →
      ⟨.indexDocument sharedMemoryIndex
        (sharedKnowledge k.summary k.context k.skills k.repository time), .ok x⟩ ∈ before →
      faults.delete.Removes taskID (es.add sharedMemoryIndex
        (sharedKnowledge k.summary k.context k.skills k.repository time)) es' →
      GraduationEnds taskID prState d faults es (before ++ after) (.ok true) es'

theorem graduateResult_ends {d : Dict} (hd : d ≠ []) {r : Except Exc Bool}
    (hend : (graduateResult taskID prState (some d) : WorkerM σ Bool).Ends s tr r s')
    (hes : Threads (Elastic.Serve faults seen) es tr es') :
    GraduationEnds taskID prState d faults es tr r es' := by
  obtain ⟨m, rest, rfl⟩ := List.exists_cons_of_ne_nil hd
  rcases Effect.ends_bind hend with ⟨tr₁, tr₂, k, s₁, rfl, h₁, h₂⟩ | ⟨e, rfl, h₁⟩
  · obtain ⟨rfl, hk, rfl⟩ := Effect.ends_ofExcept h₁
    rw [List.nil_append] at hes ⊢
    rcases Effect.ends_bind h₂ with ⟨tr₃, tr₄, stored, s₂, rfl, h₃, h₄⟩ | ⟨e, rfl, h₃⟩
    · obtain ⟨es₁, hes₁, hes₂⟩ := hes.of_append
      obtain ⟨rfl, htr, time, x, hx, hr, hans⟩ := storeSharedKnowledge_threads h₃ hes₁
      rw [← hr] at hx hans
      obtain ⟨hworks, rfl⟩ := hans
      rcases Effect.ends_bind h₄ with ⟨tr₅, tr₆, n, s₃, rfl, h₅, h₆⟩ | ⟨e, _, h₅⟩
      · obtain ⟨rfl, rfl, rfl⟩ := Effect.ends_pure h₆
        rw [List.append_nil] at hes₂ ⊢
        obtain ⟨_, _, _, hes'⟩ := deleteTaskMemory_threads h₅ hes₂
        exact .stored hk.symm hworks htr hx hes'
      · obtain ⟨⟨n, hn⟩, _⟩ := deleteTaskMemory_threads h₅ hes₂
        cases hn
    · obtain ⟨_, _, time, x, _, hr, hans⟩ := storeSharedKnowledge_threads h₃ hes
      rw [← hr] at hans
      rcases hans with ⟨hrefused, rfl⟩ | ⟨hlost, rfl⟩
      · exact .refused hk.symm hrefused
      · exact .lost hk.symm hlost
  · obtain ⟨rfl, he, _⟩ := Effect.ends_ofExcept h₁
    rw [hes.of_nil]
    exact .unfit he.symm

/-- What becomes of a task: no result is found and its documents go, or a Succeeded document is
found and something becomes of it. -/
inductive SharingEnds (taskID prState : String) (faults : Faults) (seen es : Elastic) :
    List (Event WorkerOp.Resp) → Except Exc Bool → Elastic → Prop where
  | nothing {tr : List (Event WorkerOp.Resp)} {es' : Elastic} : ¬ FindsResult taskID faults seen →
      (∀ e ∈ tr, ∀ i doc, e.1 ≠ .indexDocument i doc) → faults.delete.Removes taskID es es' →
      SharingEnds taskID prState faults seen es tr (.ok false) es'
  | result {d : Dict} {tr₁ tr₂ : List (Event WorkerOp.Resp)} {r : Except Exc Bool} {es' : Elastic} :
      faults.search = .works → d ∈ seen taskMemoryIndex → succeededOf taskID d = true →
      (∀ e ∈ tr₁, ∀ i q, e.1 ≠ .deleteByQuery i q) →
      GraduationEnds taskID prState d faults es tr₂ r es' →
      SharingEnds taskID prState faults seen es (tr₁ ++ tr₂) r es'

theorem graduateToShared_ends {r : Except Exc Bool}
    (hend : (graduateToShared taskID prState : WorkerM σ Bool).Ends s tr r s')
    (hes : Threads (Elastic.Serve faults seen) es tr es') :
    SharingEnds taskID prState faults seen es tr r es' := by
  rcases Effect.ends_bind hend with ⟨tr₁, tr₂, result, s₁, rfl, h₁, h₂⟩ | ⟨e, _, h₁⟩
  · obtain ⟨es₁, hes₁, hes₂⟩ := hes.of_append
    obtain ⟨rfl, rfl, htr₁, _, hresult, hsound, hnone⟩ := getTaskResult_threads h₁ hes₁
    cases hresult
    cases result with
    | none =>
      obtain ⟨rfl, htr₂, hes'⟩ := graduateResult_nothing h₂ hes₂
      refine .nothing (hnone rfl) ?_ hes'
      intro e he i doc heq
      rcases List.mem_append.mp he with he | he
      · rcases htr₁ e he with ho | ho
        · rwa [heq] at ho
        · rw [heq] at ho
          cases ho
      · rcases htr₂ e he with ho | ho
        · rwa [heq] at ho
        · rw [heq] at ho
          cases ho
    | some d =>
      obtain ⟨hworks, hd, hsucceeded⟩ := hsound d rfl
      exact .result hworks hd hsucceeded (not_delete_of_search htr₁)
        (graduateResult_ends (ne_nil_of_succeededOf hsucceeded) h₂ hes₂)
  · obtain ⟨_, _, _, result, hresult, _⟩ := getTaskResult_threads h₁ hes
    cases hresult

/-- Nothing is lost exactly if a result is found, or the deletion leaves the Succeeded documents
of the task where they are. -/
theorem keepsKnowledge_iff {r : Except Exc Bool}
    (hend : (graduateToShared taskID prState : WorkerM σ Bool).Ends s tr r s')
    (hes : Threads (Elastic.Serve faults seen) es tr es') :
    KeepsKnowledge taskID prState seen es es' tr ↔
      FindsResult taskID faults seen ∨
        ∀ d ∈ es taskMemoryIndex, succeededOf taskID d = true → faults.delete.spares d = true := by
  cases graduateToShared_ends hend hes with
  | nothing hunfound htr hes' =>
    constructor
    · intro hkeeps
      by_contra hcond
      push Not at hcond
      obtain ⟨_, d, hd, hsucceeded, hspares⟩ := hcond
      have hlost : d ∉ es' taskMemoryIndex := by
        intro hthere
        exact hspares ((hes'.mem_iff.mp hthere).2 (ofTask_of_succeededOf hsucceeded))
      obtain ⟨before, after, rfl, _, _, _, _, k, time, x, _, hx⟩ := hkeeps ⟨d, hd, hsucceeded, hlost⟩
      exact htr _ (List.mem_append_left after hx) _ _ rfl
    · rintro hcond ⟨d, hd, hsucceeded, hgone⟩
      rcases hcond with hfound | hspares
      · exact absurd hfound hunfound
      · exact absurd (hes'.mem_iff.mpr ⟨hd, fun _ => hspares d hd hsucceeded⟩) hgone
  | @result d tr₁ _ _ _ hworks hd hsucceeded hread hends =>
    refine ⟨fun _ => Or.inl ⟨hworks, d, hd, hsucceeded⟩, fun _ hlost => ?_⟩
    obtain ⟨d', hd', _, hgone⟩ := hlost
    cases hends with
    | unfit _ => exact absurd hd' hgone
    | refused _ _ => exact absurd hd' hgone
    | lost _ _ =>
      rw [add_shared_task] at hgone
      exact absurd hd' hgone
    | @stored k time x before after _ hk _ hbefore hx _ =>
      refine ⟨tr₁ ++ before, after, by rw [List.append_assoc], ?_, d, hd, hsucceeded, k, time, x, hk,
        List.mem_append_right tr₁ hx⟩
      intro e he
      rcases List.mem_append.mp he with he | he
      · exact hread e he
      · exact hbefore e he

/-! ## A failing search -/

/-- One Succeeded document of the task `t`. -/
def demoElastic : Elastic :=
  Elastic.set (fun _ => []) taskMemoryIndex
    [[("task_id", .str "t"), ("phase", .str "Succeeded"), ("prompt", .str "do it"),
      ("output", .str "done")]]

/-- One graduation of the task `t`: its calls, its result and the documents after it. -/
def graduateDemo (faults : Faults) :
    List (Event WorkerOp.Resp) × (Except Exc Bool × Unit) × Elastic :=
  play (Elastic.respond faults demoElastic)
    ((graduateToShared "t" "merged" : WorkerM Unit Bool).start ()) demoElastic

theorem graduateDemo_ends (faults : Faults) :
    (graduateToShared "t" "merged" : WorkerM Unit Bool).Ends () (graduateDemo faults).1
      (graduateDemo faults).2.1.1 () :=
  runs_play (Elastic.respond faults demoElastic) _ demoElastic

theorem graduateDemo_threads (faults : Faults) :
    Threads (Elastic.Serve faults demoElastic) demoElastic (graduateDemo faults).1
      (graduateDemo faults).2.2 :=
  threads_play (Elastic.respond faults demoElastic) (Elastic.serve_respond faults demoElastic) _
    demoElastic

def isStore : WorkerOp → Bool
  | .indexDocument _ _ => true
  | _ => false

/-- The search fails, and the only copy is deleted. -/
theorem knowledge_lost : ∃ faults r es' tr,
    (graduateToShared "t" "merged" : WorkerM Unit Bool).Ends () tr r () ∧
      Threads (Elastic.Serve faults demoElastic) demoElastic tr es' ∧
      ¬ KeepsKnowledge "t" "merged" demoElastic demoElastic es' tr := by
  refine ⟨⟨.refused, .works, .works⟩, _, _, _, graduateDemo_ends _, graduateDemo_threads _, ?_⟩
  intro hkeeps
  have hempty : (graduateDemo ⟨.refused, .works, .works⟩).2.2 taskMemoryIndex = [] := rfl
  obtain ⟨before, after, htr, _, _, _, _, k, time, x, _, hx⟩ :=
    hkeeps ⟨_, List.mem_singleton.mpr rfl, by decide, by rw [hempty]; exact List.not_mem_nil⟩
  have hnone : (graduateDemo ⟨.refused, .works, .works⟩).1.all (fun e => !isStore e.1) = true := by
    decide
  have hmem := List.mem_append_left after hx
  rw [← htr] at hmem
  have hstore := List.all_eq_true.mp hnone _ hmem
  cases hstore

theorem knowledge_kept :
    KeepsKnowledge "t" "merged" demoElastic demoElastic (graduateDemo ⟨.works, .works, .works⟩).2.2
      (graduateDemo ⟨.works, .works, .works⟩).1 := by
  have hfound : FindsResult "t" ⟨.works, .works, .works⟩ demoElastic :=
    ⟨rfl, _, List.mem_singleton.mpr rfl, by decide⟩
  exact (keepsKnowledge_iff (graduateDemo_ends _) (graduateDemo_threads _)).mpr (Or.inl hfound)

end BulletFarm.Worker
