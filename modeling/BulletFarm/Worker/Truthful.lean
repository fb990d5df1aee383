import BulletFarm.Worker.Routes

/-!
# What the reply to a graduate request says

Both flags of the reply are the value of `graduate_to_shared`, which is true when a result was
found and stored. It says nothing of the deletion: one that is not carried out, or in part only, is
reported as done, and one that goes through on a task without a result is not reported.
-/

namespace BulletFarm.Worker

open Interaction Python

set_option autoImplicit false

/-- The flags of a reply say what the request has done. -/
structure Truthful (taskID : String) (es es' : Elastic) (response : GraduateResponse) : Prop where
  deleted : response.taskMemoryDeleted = true ↔
    (∃ d ∈ es taskMemoryIndex, ofTask taskID d = true) ∧
      ∀ d ∈ es' taskMemoryIndex, ofTask taskID d = false
  updated : response.sharedMemoryUpdated = true ↔
    ∃ doc, es' sharedMemoryIndex = es sharedMemoryIndex ++ [doc]

section Replies
variable {σ : Type} {taskID prState : String} {s s' : σ} {tr : List (Event WorkerOp.Resp)}
  {faults : Faults} {seen es es' : Elastic}

/-- The value is whether a result was found; the deletion goes its own way. -/
theorem graduateToShared_returned {b : Bool}
    (hend : (graduateToShared taskID prState : WorkerM σ Bool).Ends s tr (.ok b) s')
    (hes : Threads (Elastic.Serve faults seen) es tr es') :
    (b = true ↔ FindsResult taskID faults seen) ∧
      (b = true ↔ ∃ doc, es' sharedMemoryIndex = es sharedMemoryIndex ++ [doc]) ∧
      ((∀ d ∈ es' taskMemoryIndex, ofTask taskID d = false) ↔ faults.delete.Full taskID es) := by
  cases graduateToShared_ends hend hes with
  | nothing hunfound _ hes' =>
    refine ⟨iff_of_false Bool.false_ne_true hunfound, iff_of_false Bool.false_ne_true ?_,
      hes'.cleared_iff⟩
    rintro ⟨doc, hdoc⟩
    rw [hes'.shared] at hdoc
    have hlength := congrArg List.length hdoc
    rw [List.length_append, List.length_singleton] at hlength
    omega
  | @result d _ _ _ _ hsearch hmem hsucceeded _ hends =>
    cases hends with
    | @stored k time _ _ _ _ _ _ _ _ hes' =>
      refine ⟨iff_of_true rfl ⟨hsearch, d, hmem, hsucceeded⟩,
        iff_of_true rfl ⟨_, hes'.shared.trans (add_shared_shared es _)⟩, hes'.cleared_iff.trans ?_⟩
      unfold Deletion.Full
      rw [add_shared_task]

theorem truthful_iff_of_returned {b : Bool}
    (hfound : b = true ↔ FindsResult taskID faults seen)
    (hstored : b = true ↔ ∃ doc, es' sharedMemoryIndex = es sharedMemoryIndex ++ [doc])
    (hcleared : (∀ d ∈ es' taskMemoryIndex, ofTask taskID d = false) ↔ faults.delete.Full taskID es) :
    Truthful taskID es es' ⟨b, b, prState⟩ ↔
      (FindsResult taskID faults seen →
        faults.delete.Full taskID es ∧ ∃ d ∈ es taskMemoryIndex, ofTask taskID d = true) ∧
        (¬ FindsResult taskID faults seen →
          ¬ faults.delete.Full taskID es ∨ ∀ d ∈ es taskMemoryIndex, ofTask taskID d = false) := by
  have hiff : Truthful taskID es es' ⟨b, b, prState⟩ ↔ (FindsResult taskID faults seen ↔
      (∃ d ∈ es taskMemoryIndex, ofTask taskID d = true) ∧ faults.delete.Full taskID es) := by
    rw [← hfound, ← hcleared]
    exact ⟨Truthful.deleted, fun h => ⟨h, hstored⟩⟩
  have hnone : (¬ ∃ d ∈ es taskMemoryIndex, ofTask taskID d = true) ↔
      ∀ d ∈ es taskMemoryIndex, ofTask taskID d = false := by
    simp
  rw [hiff, ← hnone]
  constructor
  · intro h
    refine ⟨fun hresult => (h.mp hresult).symm, fun hunfound => ?_⟩
    by_contra hcond
    rw [not_or, not_not, not_not] at hcond
    exact hunfound (h.mpr hcond.symm)
  · rintro ⟨hworks, hclear⟩
    refine ⟨fun hresult => (hworks hresult).symm, ?_⟩
    rintro ⟨hdocs, hfull⟩
    by_contra hunfound
    rcases hclear hunfound with hpart | hempty
    · exact hpart hfull
    · exact hempty hdocs

/-- The reply to a graduate request that returns normally is truthful exactly if a task with a
result has documents, which are deleted in full, and a task without one has none that are. -/
theorem reply_truthful_iff {statuses : String → Option TaskStatus} {response : GraduateResponse}
    (hend : (graduateTask statuses taskID : WorkerM σ _).Ends s tr (.ok (.ok response)) s')
    (hes : Threads (Elastic.Serve faults seen) es tr es') :
    Truthful taskID es es' response ↔
      (FindsResult taskID faults seen →
        faults.delete.Full taskID es ∧ ∃ d ∈ es taskMemoryIndex, ofTask taskID d = true) ∧
        (¬ FindsResult taskID faults seen →
          ¬ faults.delete.Full taskID es ∨ ∀ d ∈ es taskMemoryIndex, ofTask taskID d = false) := by
  rcases graduateTask_ends hend hes with ⟨_, _, err, herr⟩ | ⟨_, _, _, _, b, _, hshared, hes₂, hr⟩
  · cases herr
  · cases b with
    | error e => cases hr
    | ok b =>
      cases hr
      obtain ⟨hfound, hstored, hcleared⟩ := graduateToShared_returned hshared hes₂
      exact truthful_iff_of_returned hfound hstored hcleared

end Replies

def twoDocuments : Elastic :=
  Elastic.set (fun _ => []) taskMemoryIndex
    [[("task_id", .str "t"), ("phase", .str "Succeeded"), ("prompt", .str "do it"),
      ("output", .str "done")], [("task_id", .str "t"), ("phase", .str "Running")]]

def replyTo (faults : Faults) :
    List (Event WorkerOp.Resp) × (Except Exc (Except HTTPException GraduateResponse) × Unit) × Elastic :=
  play (Elastic.respond faults twoDocuments) ((graduateTask
    (fun id => some { taskID := id, phase := .succeeded }) "t" : WorkerM Unit _).start ()) twoDocuments

theorem replyTo_serves (faults : Faults) :
    Threads (Elastic.Serve faults twoDocuments) twoDocuments (replyTo faults).1 (replyTo faults).2.2 :=
  threads_play (Elastic.respond faults twoDocuments) (Elastic.serve_respond faults twoDocuments) _
    twoDocuments

theorem reply_truthful_iff_demo :
    Truthful "t" twoDocuments (replyTo ⟨.works, .works, .works⟩).2.2 ⟨true, true, "unknown"⟩ := by
  have hend : (graduateTask (fun id => some { taskID := id, phase := .succeeded }) "t" :
      WorkerM Unit _).Ends () (replyTo ⟨.works, .works, .works⟩).1 (.ok (.ok ⟨true, true, "unknown"⟩)) () :=
    runs_play (Elastic.respond ⟨.works, .works, .works⟩ twoDocuments) _ twoDocuments
  have hfound : FindsResult "t" ⟨.works, .works, .works⟩ twoDocuments :=
    ⟨rfl, _, List.mem_cons_self, by decide⟩
  refine (reply_truthful_iff hend (replyTo_serves _)).mpr ⟨fun _ => ⟨fun _ _ _ => rfl, ?_⟩, ?_⟩
  · exact ⟨_, List.mem_cons_self, by decide⟩
  · exact fun hunfound => absurd hfound hunfound

/-- The deletion raises when it has come to the result only. -/
def interrupted : Deletion where
  raises := true
  spares := hasTerm "phase" "Running"

theorem deletion_misreported : ∃ statuses faults tr response es',
    (graduateTask statuses "t" : WorkerM Unit _).Ends () tr (.ok (.ok response)) () ∧
      Threads (Elastic.Serve faults twoDocuments) twoDocuments tr es' ∧
      ¬ Truthful "t" twoDocuments es' response := by
  have hend : (graduateTask (fun id => some { taskID := id, phase := .succeeded }) "t" :
      WorkerM Unit _).Ends () (replyTo ⟨.works, .works, interrupted⟩).1
        (.ok (.ok ⟨true, true, "unknown"⟩)) () :=
    runs_play (Elastic.respond ⟨.works, .works, interrupted⟩ twoDocuments) _ twoDocuments
  refine ⟨_, _, _, _, _, hend, replyTo_serves _, ?_⟩
  intro htruthful
  obtain ⟨_, hnone⟩ := htruthful.deleted.mp rfl
  have hkept : (replyTo ⟨.works, .works, interrupted⟩).2.2 taskMemoryIndex =
      [[("task_id", .str "t"), ("phase", .str "Running")]] := rfl
  rw [hkept] at hnone
  have hdoc := hnone _ (List.mem_singleton.mpr rfl)
  revert hdoc
  decide

end BulletFarm.Worker
