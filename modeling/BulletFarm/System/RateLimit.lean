import BulletFarm.System.Fleet
import BulletFarm.Text.Search

/-!
# Who takes an exception for a rate limit

The agent asks before it tries again and when it fails, the server when the agent raises, and
the operator looks at what either of them reports. The agent and the server have lists of
markers of their own.
-/

namespace BulletFarm.System

open Interaction Operator
open Python (Exc contains lower lowerChar take)
open Worker (TaskStatus TaskRequest RunState Registry isRateLimit handleFailure)

set_option autoImplicit false

/-! ## Texts -/

/-- Letters that are their own lower case. -/
def Lowercase (m : List Char) : Prop := ∀ c ∈ m, lowerChar c = [c]

theorem Lowercase.flatMap {m : List Char} (h : Lowercase m) : m.flatMap lowerChar = m := by
  induction m with
  | nil => rfl
  | cons c m ih =>
    rw [List.flatMap_cons, h c List.mem_cons_self, ih fun d hd => h d (List.mem_cons_of_mem _ hd)]
    rfl

theorem Lowercase.infix_lower {m : List Char} (h : Lowercase m) {s : String} (hin : m <:+: s.toList) :
    m <:+: (lower s).toList := by
  obtain ⟨before, after, hs⟩ := hin
  refine ⟨before.flatMap lowerChar, after.flatMap lowerChar, ?_⟩
  rw [lower, String.toList_ofList, ← hs, List.flatMap_append, List.flatMap_append, h.flatMap]

/-- A marker of a message is one of the text in it, if none begins before the text. -/
theorem infix_of_message {m : List Char} {before text : String} {n : Nat}
    (hclear : Text.Clear m before.toList text.toList) (h : m <:+: (take n (before ++ text)).toList) :
    m <:+: text.toList := by
  rw [take, String.toList_ofList, String.toList_append] at h
  exact hclear.infix_append_iff.mp (h.trans (List.take_prefix _ _).isInfix)

/-! ## The operator -/

/-- The operator looks for these itself. -/
def operatorMarkers : List String := ["rate limit", "429"]

theorem operatorMarkers_lowercase {m : String} (hm : m ∈ operatorMarkers) : Lowercase m.toList := by
  simp only [operatorMarkers, List.mem_cons, List.not_mem_nil, or_false] at hm
  rcases hm with rfl | rfl
  · simp [Lowercase, lowerChar]
  · simp [Lowercase, lowerChar]

theorem failureReason_rateLimited_iff (s : WorkerStatus) : failureReason s = "rate_limited" ↔
    s.rateLimited = true ∨ ∃ m ∈ operatorMarkers, m.toList <:+: s.message.toList := by
  have hmarkers : (∃ m ∈ operatorMarkers, m.toList <:+: s.message.toList) ↔
      containsText s.message "rate limit" = true ∨ containsText s.message "429" = true := by
    simp only [operatorMarkers, List.mem_cons, List.not_mem_nil, or_false, exists_eq_or_imp,
      exists_eq_left, containsText, decide_eq_true_eq]
  rw [hmarkers]
  unfold failureReason
  split
  · next h => exact iff_of_true rfl (Or.inl h)
  · next h =>
    rw [or_iff_right h]
    split
    · next hin => exact iff_of_true rfl hin
    · next hin => exact iff_of_false (by simp) hin

/-- A failure reported with the exception's own text and the worker's own flag is recorded by
the flag alone, if the flag is set for what the operator looks for itself. -/
theorem failureReason_flag {status : TaskStatus} {before text : String} {n : Nat}
    (hmessage : status.message = take n (before ++ text))
    (hclear : ∀ m ∈ operatorMarkers, Text.Clear m.toList before.toList text.toList)
    (hflag : ∀ m ∈ operatorMarkers, m.toList <:+: (lower text).toList → status.rateLimited = true) :
    failureReason (reported status) = "rate_limited" ↔ status.rateLimited = true := by
  rw [failureReason_rateLimited_iff]
  apply or_iff_left_of_imp
  rintro ⟨m, hm, hin⟩
  have hsame : (reported status).message = take n (before ++ text) := hmessage
  rw [hsame] at hin
  exact hflag m hm ((operatorMarkers_lowercase hm).infix_lower (infix_of_message (hclear m hm) hin))

/-! ## The two paths -/

/-- A Failed status built from the exception: by the handler of `run_task`, or by the server
when `run_task` raises. -/
def FailedBy (exc : Exc) (status : TaskStatus) : Prop :=
  (∃ request s tr s', (handleFailure request exc).Ends s tr (.ok status) s') ∨
    ∃ (statuses : Registry) (request : TaskRequest),
      statuses.finishTask request (.error exc) request.taskID = some status

/-- What the operator decodes from the status of a path, and writes as the reason. -/
def ReasonIs (limited : Bool) (status : TaskStatus) : Prop :=
  ∀ s, decodeReply {} WorkerStatus.set (statusReply status) = .ok s →
    (failureReason s = "rate_limited" ↔ limited = true)

/-- Everyone takes the exception for the same. -/
structure ClassifiersAgree (exc : Exc) : Prop where
  same : isRateLimit exc = Registry.isRateLimitError exc
  reason : ∀ status, FailedBy exc status → ReasonIs (isRateLimit exc) status

section Paths
variable {exc : Exc} {status : TaskStatus}

theorem handleFailure_status {request : TaskRequest} {s s' : RunState}
    {tr : List (Event Worker.WorkerOp.Resp)} (h : (handleFailure request exc).Ends s tr (.ok status) s') :
    status.phase = .failed ∧ status.progress = 0 ∧
      status.message = take 500 ("Agent error: " ++ exc.text) ∧ status.rateLimited = isRateLimit exc := by
  have hgives : Effect.Gives (fun status : TaskStatus => status.phase = .failed ∧ status.progress = 0 ∧
      status.message = take 500 ("Agent error: " ++ exc.text) ∧ status.rateLimited = isRateLimit exc)
      (handleFailure request exc) := by
    apply Effect.Gives.bind
    intro _
    apply Effect.Gives.bind
    intro s
    apply Effect.Gives.pure
    simp only [and_self]
  exact hgives _ _ _ _ h

theorem isRateLimit_of_operatorMarkers {m : String} (hm : m ∈ operatorMarkers)
    (h : m.toList <:+: (lower exc.text).toList) : isRateLimit exc = true := by
  apply List.any_eq_true.mpr
  refine ⟨m, ?_, decide_eq_true h⟩
  simp only [operatorMarkers, List.mem_cons, List.not_mem_nil, or_false] at hm
  rcases hm with rfl | rfl <;> simp [Worker.rateLimitMarkers]

theorem isRateLimitError_of_operatorMarkers {m : String} (hm : m ∈ operatorMarkers)
    (h : m.toList <:+: (lower exc.text).toList) : Registry.isRateLimitError exc = true := by
  apply List.any_eq_true.mpr
  refine ⟨m, ?_, decide_eq_true h⟩
  simp only [operatorMarkers, List.mem_cons, List.not_mem_nil, or_false] at hm
  rcases hm with rfl | rfl <;> simp [Registry.rateLimitMarkers]

theorem agentError_clear (text : String) :
    ∀ m ∈ operatorMarkers, Text.Clear m.toList "Agent error: ".toList text.toList := by
  intro m hm
  simp only [operatorMarkers, List.mem_cons, List.not_mem_nil, or_false] at hm
  rcases hm with rfl | rfl <;> simp [Text.Clear]

theorem internalError_clear (text : String) :
    ∀ m ∈ operatorMarkers, Text.Clear m.toList "Internal error: ".toList text.toList := by
  intro m hm
  simp only [operatorMarkers, List.mem_cons, List.not_mem_nil, or_false] at hm
  rcases hm with rfl | rfl <;> simp [Text.Clear]

/-- On either path the reason is what that path's own test says. -/
theorem FailedBy.reason (h : FailedBy exc status) :
    ReasonIs (isRateLimit exc) status ∨ ReasonIs (Registry.isRateLimitError exc) status := by
  have hreason : ∀ {limited : Bool} {before : String}, status.progress = 0 →
      status.rateLimited = limited → status.message = take 500 (before ++ exc.text) →
      (∀ m ∈ operatorMarkers, Text.Clear m.toList before.toList exc.text.toList) →
      (∀ m ∈ operatorMarkers, m.toList <:+: (lower exc.text).toList → limited = true) →
        ReasonIs limited status := by
    intro limited before hprogress hlimited hmessage hclear hflag s hs
    rw [decode_reported (by omega)] at hs
    cases hs
    rw [← hlimited]
    exact failureReason_flag hmessage hclear fun m hm hin => hlimited.trans (hflag m hm hin)
  rcases h with ⟨request, s, tr, s', hend⟩ | ⟨statuses, request, hfinish⟩
  · obtain ⟨_, hprogress, hmessage, hlimited⟩ := handleFailure_status hend
    exact Or.inl (hreason hprogress hlimited hmessage (agentError_clear _)
      fun m hm => isRateLimit_of_operatorMarkers hm)
  · unfold Registry.finishTask at hfinish
    dsimp only at hfinish
    rw [Registry.set_same] at hfinish
    cases hfinish
    refine Or.inr (hreason rfl ?_ rfl (internalError_clear _)
      fun m hm => isRateLimitError_of_operatorMarkers hm)
    simp only

end Paths

/-! ## Agreement -/

/-- The text has a marker of both lists, or is in the same way with what only one has. -/
def SameMarkers (text : String) : Prop :=
  contains text "rate limit" ∨ contains text "429" ∨ contains text "too many requests" ∨
    (contains text "quota" ↔ contains text "quota exceeded" ∨ contains text "rate_limit")

theorem isRateLimit_iff (exc : Exc) : isRateLimit exc = true ↔
    contains (lower exc.text) "rate limit" ∨ contains (lower exc.text) "429" ∨
      contains (lower exc.text) "too many requests" ∨ contains (lower exc.text) "quota" := by
  simp only [isRateLimit, Worker.rateLimitMarkers, List.any_cons, List.any_nil, Bool.or_false,
    Bool.or_eq_true]

theorem isRateLimitError_iff (exc : Exc) : Registry.isRateLimitError exc = true ↔
    contains (lower exc.text) "rate limit" ∨ contains (lower exc.text) "429" ∨
      contains (lower exc.text) "too many requests" ∨ contains (lower exc.text) "quota exceeded" ∨
        contains (lower exc.text) "rate_limit" := by
  simp only [Registry.isRateLimitError, Registry.rateLimitMarkers, List.any_cons, List.any_nil,
    Bool.or_false, Bool.or_eq_true]

/-- Two lists with three markers in common. -/
theorem markers_agree {a b c own own' : Prop} :
    ((a ∨ b ∨ c ∨ own) ↔ (a ∨ b ∨ c ∨ own')) ↔ a ∨ b ∨ c ∨ (own ↔ own') := by
  by_cases hcommon : a ∨ b ∨ c
  · rcases hcommon with h | h | h
    · simp [h]
    · simp [h]
    · simp [h]
  · obtain ⟨ha, hb, hc⟩ : ¬ a ∧ ¬ b ∧ ¬ c := by simpa [not_or] using hcommon
    simp [ha, hb, hc]

/-- All of them agree on an exception exactly if the two lists of markers do. -/
theorem classifiersAgree_iff (exc : Exc) : ClassifiersAgree exc ↔ SameMarkers (lower exc.text) := by
  have hsame : isRateLimit exc = Registry.isRateLimitError exc ↔ SameMarkers (lower exc.text) := by
    rw [Bool.eq_iff_iff, isRateLimit_iff, isRateLimitError_iff, SameMarkers]
    exact markers_agree
  rw [← hsame]
  refine ⟨ClassifiersAgree.same, fun h => ⟨h, fun status hfailed => ?_⟩⟩
  rcases hfailed.reason with hreason | hreason
  · exact hreason
  · rw [h]
    exact hreason

/-- A text with a marker of the server's alone. -/
theorem classifiers_differ : ∃ exc, ¬ ClassifiersAgree exc := by
  refine ⟨⟨.other, "rate_limit_exceeded"⟩, fun h => ?_⟩
  have hagent : isRateLimit ⟨.other, "rate_limit_exceeded"⟩ = false := by decide +kernel
  have hserver : Registry.isRateLimitError ⟨.other, "rate_limit_exceeded"⟩ = true := by decide +kernel
  have hsame := h.same
  rw [hagent, hserver] at hsame
  cases hsame

end BulletFarm.System
