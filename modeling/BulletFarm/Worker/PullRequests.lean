import BulletFarm.Worker.Flush

/-!
# The pull request of a run

A run opens at most one pull request, and none if its request comes with one. The URL
of the new one reaches the status of the run unless its labels cannot be set: the
exception leaves `create_draft_pr` after the pull request has been made.
-/

namespace BulletFarm.Worker

open Interaction Python

set_option autoImplicit false

/-! ## The calls -/

/-- The calls that only `create_draft_pr` makes. -/
def Opens : WorkerOp → Prop
  | .getLabels _ | .createLabel _ _ | .createPull _ _ _ _ _ | .setLabels _ _ _ => True
  | _ => False

def Settles : WorkerOp → Prop
  | .createPull _ _ _ _ _ | .setLabels _ _ _ => True
  | _ => False

/-- No call of the trace has to do with opening a pull request. -/
def Calm (tr : List (Event WorkerOp.Resp)) : Prop := ∀ e ∈ tr, ¬ Opens e.1

def openedBy : Event WorkerOp.Resp → Option Pull
  | ⟨.createPull _ _ _ _ _, .ok pull⟩ => some pull
  | _ => none

/-- The pull requests that `create_pull` has made. -/
def opened (tr : List (Event WorkerOp.Resp)) : List Pull := tr.filterMap openedBy

def FailsToLabel : Event WorkerOp.Resp → Prop
  | ⟨.setLabels _ _ _, .error _⟩ => True
  | _ => False

instance : DecidablePred FailsToLabel
  | ⟨.setLabels _ _ _, .error _⟩ => isTrue trivial
  | ⟨.setLabels _ _ _, .ok _⟩ => isFalse id
  | ⟨.now, _⟩ | ⟨.sleep _, _⟩ | ⟨.randint _ _, _⟩ | ⟨.indexExists _, _⟩ | ⟨.createIndex _ _, _⟩
  | ⟨.indexDocument _ _, _⟩ | ⟨.search _, _⟩ | ⟨.deleteByQuery _ _, _⟩ | ⟨.bulk _, _⟩
  | ⟨.run _ _, _⟩ | ⟨.writeFile _ _, _⟩ | ⟨.getRepo _, _⟩ | ⟨.getLabels _, _⟩
  | ⟨.createLabel _ _, _⟩ | ⟨.createPull _ _ _ _ _, _⟩ | ⟨.getPull _ _, _⟩
  | ⟨.createComment _ _ _, _⟩ | ⟨.streamEvents _ _, _⟩ | ⟨.invoke _ _, _⟩ | ⟨.asyncSleep _, _⟩
  | ⟨.setOrder _, _⟩ | ⟨.progress _ _ _, _⟩ => isFalse id

/-- Some `set_labels` raises. -/
def LabelsFail (tr : List (Event WorkerOp.Resp)) : Prop := ∃ e ∈ tr, FailsToLabel e

instance (tr : List (Event WorkerOp.Resp)) : Decidable (LabelsFail tr) :=
  inferInstanceAs (Decidable (∃ e ∈ tr, FailsToLabel e))

section Traces
variable {tr tr₁ tr₂ : List (Event WorkerOp.Resp)}

theorem opened_append : opened (tr₁ ++ tr₂) = opened tr₁ ++ opened tr₂ := List.filterMap_append

theorem labelsFail_append : LabelsFail (tr₁ ++ tr₂) ↔ LabelsFail tr₁ ∨ LabelsFail tr₂ := by
  simp only [LabelsFail, List.mem_append, or_and_right, exists_or]

theorem calm_append : Calm (tr₁ ++ tr₂) ↔ Calm tr₁ ∧ Calm tr₂ := List.forall_mem_append

/-- Without `create_pull` and `set_labels` nothing is opened and no labels fail. -/
theorem unopened_of_not_settles (h : ∀ e ∈ tr, ¬ Settles e.1) : opened tr = [] ∧ ¬ LabelsFail tr := by
  constructor
  · apply List.filterMap_eq_nil_iff.mpr
    intro e he
    have ho := h e he
    obtain ⟨o, r⟩ := e
    cases o with
    | createPull _ _ _ _ _ => exact absurd trivial ho
    | _ => rfl
  · rintro ⟨⟨o, r⟩, he, hfails⟩
    cases o with
    | setLabels _ _ _ => exact h _ he trivial
    | _ => exact hfails

theorem Settles.opens {o : WorkerOp} (h : Settles o) : Opens o := by
  cases o with
  | createPull _ _ _ _ _ => trivial
  | setLabels _ _ _ => trivial
  | _ => exact h.elim

theorem Calm.unopened (h : Calm tr) : opened tr = [] ∧ ¬ LabelsFail tr :=
  unopened_of_not_settles fun e he hsettles => h e he hsettles.opens

end Traces

/-! ## What a run goes by -/

/-- The URL that a run with this request goes by after `tr`. -/
inductive GoesBy (request : TaskRequest) (tr : List (Event WorkerOp.Resp)) : String → Prop where
  | given : Calm tr → GoesBy request tr request.prURL
  | unopened : request.prURL = "" → opened tr = [] → ¬ LabelsFail tr → GoesBy request tr ""
  | opened (pull : Pull) : request.prURL = "" → opened tr = [pull] → ¬ LabelsFail tr →
      GoesBy request tr pull.url
  | lost (pull : Pull) : request.prURL = "" → opened tr = [pull] → LabelsFail tr →
      GoesBy request tr ""

section GoesBy
variable {request : TaskRequest} {tr tr₁ tr₂ : List (Event WorkerOp.Resp)} {url : String}

theorem GoesBy.congr (h : GoesBy request tr₁ url) (hcalm : Calm tr₁ → Calm tr₂)
    (hopened : Worker.opened tr₂ = Worker.opened tr₁) (hfails : LabelsFail tr₂ ↔ LabelsFail tr₁) :
    GoesBy request tr₂ url := by
  cases h with
  | given h => exact .given (hcalm h)
  | unopened hurl hnone hworks =>
    rw [← hfails] at hworks
    exact .unopened hurl (hopened.trans hnone) hworks
  | opened pull hurl hone hworks =>
    rw [← hfails] at hworks
    exact .opened pull hurl (hopened.trans hone) hworks
  | lost pull hurl hone hlost => exact .lost pull hurl (hopened.trans hone) (hfails.mpr hlost)

theorem GoesBy.after (h : GoesBy request tr₂ url) (hcalm : Calm tr₁) :
    GoesBy request (tr₁ ++ tr₂) url := by
  apply h.congr
  · exact fun h => calm_append.mpr ⟨hcalm, h⟩
  · rw [opened_append, hcalm.unopened.1, List.nil_append]
  · rw [labelsFail_append, or_iff_right hcalm.unopened.2]

theorem GoesBy.before (h : GoesBy request tr₁ url) (hcalm : Calm tr₂) :
    GoesBy request (tr₁ ++ tr₂) url := by
  apply h.congr
  · exact fun h => calm_append.mpr ⟨h, hcalm⟩
  · rw [opened_append, hcalm.unopened.1, List.append_nil]
  · rw [labelsFail_append, or_iff_left hcalm.unopened.2]

theorem GoesBy.of_given (h : GoesBy request tr url) (hurl : request.prURL ≠ "") :
    Calm tr ∧ url = request.prURL := by
  cases h with
  | given h => exact ⟨h, rfl⟩
  | unopened h _ _ => exact absurd h hurl
  | opened _ h _ _ => exact absurd h hurl
  | lost _ h _ _ => exact absurd h hurl

end GoesBy

/-- The step leaves the URL of the run alone and has nothing to do with opening. -/
def SamePR (s : RunState) (tr : List (Event WorkerOp.Resp)) (s' : RunState) : Prop :=
  s'.prURL = s.prURL ∧ Calm tr

/-- A run that has gone by its request's URL so far: what its status says, or, when it
raises, what its state says. -/
def Concludes (request : TaskRequest) (s : RunState) (tr : List (Event WorkerOp.Resp))
    (r : Except Exc TaskStatus) (s' : RunState) : Prop :=
  s.prURL = request.prURL → GoesBy request tr
    (match r with
      | .ok status => status.pullRequestURL
      | .error _ => s'.prURL)

/-- The rest of a run that goes by `url` and says so. -/
def Names (url : String) (s : RunState) (tr : List (Event WorkerOp.Resp)) (r : Except Exc TaskStatus)
    (s' : RunState) : Prop :=
  s.prURL = url → SamePR s tr s' ∧ ∀ status, r = .ok status → status.pullRequestURL = url

section Steps
variable {request : TaskRequest} {α : Type}

theorem samePR_composes : Effect.Composes SamePR where
  refl s := ⟨rfl, fun e he => by cases he⟩
  trans h₁ h₂ := ⟨h₂.1.trans h₁.1, calm_append.mpr ⟨h₁.2, h₂.2⟩⟩

theorem Makes.samePR {m : RunM α} (hm : Makes (fun o => ¬ Opens o) m) : Effect.Moves SamePR m := by
  intro s tr r s' h
  obtain ⟨rfl, htr⟩ := hm _ _ _ _ h
  exact ⟨rfl, htr⟩

theorem Locally.not_opens (o : WorkerOp) (h : Locally o) : ¬ Opens o := by
  cases o with
  | run _ _ => exact id
  | writeFile _ _ => exact id
  | progress _ _ _ => exact id
  | _ => exact h.elim

theorem Looks.not_opens (o : WorkerOp) (h : Looks o) : ¬ Opens o := by
  cases o with
  | indexExists _ => exact id
  | createIndex _ _ => exact id
  | search _ => exact id
  | sleep _ => exact id
  | randint _ _ => exact id
  | _ => exact h.elim

theorem Converses.not_opens (o : WorkerOp) (h : Converses o) : ¬ Opens o := by
  cases o with
  | getRepo _ => exact id
  | getPull _ _ => exact id
  | createComment _ _ _ => exact id
  | _ => exact h.elim

theorem Attends.not_opens (o : WorkerOp) (h : Attends o) : ¬ Opens o := by
  cases o with
  | streamEvents _ _ => exact id
  | invoke _ _ => exact id
  | asyncSleep _ => exact id
  | progress _ _ _ => exact id
  | _ => exact h.elim

theorem Prepares.not_opens (o : WorkerOp) (h : Prepares o) : ¬ Opens o := by
  cases o <;> first | exact id | exact h.elim

theorem addTaskMemory_samePR (doc : Dict) : Effect.Moves SamePR (addTaskMemory doc) := by
  apply Effect.Moves.bind samePR_composes (Makes.samePR (Makes.ask id))
  exact fun stamp => Effect.Moves.modify fun s => samePR_composes.refl s

theorem addSharedMemory_samePR (doc : Dict) : Effect.Moves SamePR (addSharedMemory doc) := by
  apply Effect.Moves.bind samePR_composes (Makes.samePR (Makes.ask id))
  exact fun stamp => Effect.Moves.modify fun s => samePR_composes.refl s

theorem bulkWrite_calm {σ : Type} (b : MemoryWriteBuffer) :
    Makes (fun o => ¬ Opens o) (bulkWrite b : WorkerM σ BulkWriteResult) := by
  apply Makes.bind (ensureIndices_makes.mono fun o h => Looks.not_opens o h.looks)
  intro _
  apply Makes.ite (Makes.pure _)
  apply Makes.tryCatch
  · exact Makes.bind (Makes.attempt id _) fun _ => Makes.pure _
  · exact fun _ => Makes.pure _

theorem flush_samePR : Effect.Moves SamePR flush :=
  Effect.Moves.bind samePR_composes (Effect.Moves.get samePR_composes) fun s =>
    Makes.samePR (bulkWrite_calm s.buffer)

end Steps

/-! ## Opening a pull request -/

/-- How `create_draft_pr` can end. -/
inductive Opening (tr : List (Event WorkerOp.Resp)) : Except Exc String → Prop where
  | failed (exc : Exc) : opened tr = [] → ¬ LabelsFail tr → Opening tr (.error exc)
  | unlabelled (pull : Pull) (exc : Exc) : opened tr = [pull] → LabelsFail tr →
      Opening tr (.error exc)
  | done (pull : Pull) : opened tr = [pull] → ¬ LabelsFail tr → Opening tr (.ok pull.url)

section Opening
variable {σ : Type} {s s' : σ} {tr tr₁ tr₂ : List (Event WorkerOp.Resp)} {r : Except Exc String}

theorem Opening.after (h : Opening tr₂ r) (hfirst : ∀ e ∈ tr₁, ¬ Settles e.1) :
    Opening (tr₁ ++ tr₂) r := by
  obtain ⟨hnone, hworks⟩ := unopened_of_not_settles hfirst
  have hopened : opened (tr₁ ++ tr₂) = opened tr₂ := by
    rw [opened_append, hnone, List.nil_append]
  have hfails : LabelsFail (tr₁ ++ tr₂) ↔ LabelsFail tr₂ := by
    rw [labelsFail_append, or_iff_right hworks]
  cases h with
  | failed exc h₁ h₂ => exact .failed exc (hopened.trans h₁) (by rwa [hfails])
  | unlabelled pull exc h₁ h₂ => exact .unlabelled pull exc (hopened.trans h₁) (hfails.mpr h₂)
  | done pull h₁ h₂ => exact .done pull (hopened.trans h₁) (by rwa [hfails])

/-- A step of `create_draft_pr` before the pull request is made. -/
theorem Opening.bind {α : Type} {m : WorkerM σ α} {f : α → WorkerM σ String}
    (hm : Makes (fun o => ¬ Settles o) m)
    (hf : ∀ a, Effect.Meets (fun _ tr r _ => Opening tr r) (f a)) :
    Effect.Meets (fun _ tr r _ => Opening tr r) (m >>= f) := by
  refine Effect.Meets.bind ?_ ?_ hm hf
  · intro s tr s' e h
    obtain ⟨hnone, hworks⟩ := unopened_of_not_settles h.2
    exact .failed e hnone hworks
  · exact fun hfirst h => h.after hfirst.2

theorem createDraftPR_opens (repoName head base title body taskID agentRef : String) :
    Effect.Meets (fun _ tr r _ => Opening tr r)
      (createDraftPR repoName head base title body taskID agentRef : WorkerM σ String) := by
  apply Opening.bind (Makes.attempt id _)
  intro repo
  apply Opening.bind
  · apply (ensureLabels_makes _ _).mono
    intro o ho
    cases o with
    | getLabels _ => exact id
    | createLabel _ _ => exact id
    | _ => exact ho.elim
  · intro _ s tr r s' h
    rcases Effect.ends_bind h with ⟨tr₁, tr₂, pull, s₁, rfl, h₁, h₂⟩ | ⟨exc, rfl, h₁⟩
    · obtain ⟨answer, rfl, hanswer, rfl⟩ := Effect.ends_attempt h₁
      cases hanswer
      rcases Effect.ends_bind h₂ with ⟨tr₃, tr₄, _, s₂, rfl, h₃, h₄⟩ | ⟨exc, rfl, h₃⟩
      · obtain ⟨answer, rfl, hanswer, rfl⟩ := Effect.ends_attempt h₃
        obtain ⟨rfl, rfl, rfl⟩ := Effect.ends_pure h₄
        cases hanswer
        refine .done pull rfl ?_
        rintro ⟨e, he, hfails⟩
        simp only [List.cons_append, List.nil_append, List.append_nil, List.mem_cons,
          List.not_mem_nil, or_false] at he
        rcases he with rfl | rfl
        · exact hfails
        · exact hfails
      · obtain ⟨answer, rfl, hanswer, rfl⟩ := Effect.ends_attempt h₃
        cases hanswer
        exact .unlabelled pull exc rfl ⟨_, List.mem_cons_of_mem _ (List.mem_singleton_self _), trivial⟩
    · obtain ⟨answer, rfl, hanswer, rfl⟩ := Effect.ends_attempt h₁
      cases hanswer
      refine .failed exc rfl ?_
      rintro ⟨e, he, hfails⟩
      rw [List.mem_singleton.mp he] at hfails
      exact hfails

end Opening

/-! ## The run -/

section Run
variable {request : TaskRequest}

/-- Steps that have nothing to do with the pull request, and the rest of the run. -/
theorem Concludes.leads (request : TaskRequest) : Leads SamePR (Concludes request) where
  composes := samePR_composes
  raise := by
    rintro s tr s' e ⟨hsame, hcalm⟩ hurl
    dsimp only
    rw [hsame, hurl]
    exact .given hcalm
  front := by
    rintro s₁ tr₁ s₂ tr₂ r s₃ ⟨hsame, hcalm⟩ h hurl
    exact (h (hsame.trans hurl)).after hcalm

theorem Concludes.of_makes {α : Type} {m : RunM α} {f : α → RunM TaskStatus} {ok : WorkerOp → Prop}
    (hm : Makes ok m) (hok : ∀ o, ok o → ¬ Opens o)
    (hf : ∀ a, Effect.Meets (Concludes request) (f a)) :
    Effect.Meets (Concludes request) (m >>= f) :=
  (Concludes.leads request).bind (Makes.samePR (hm.mono hok)) hf

theorem Names.bind {α : Type} {url : String} {m : RunM α} {f : α → RunM TaskStatus}
    (hm : Effect.Moves SamePR m) (hf : ∀ a, Effect.Meets (Names url) (f a)) :
    Effect.Meets (Names url) (m >>= f) := by
  refine Effect.Meets.bind ?_ ?_ hm hf
  · intro s tr s' e h _
    refine ⟨h, fun status hstatus => ?_⟩
    cases hstatus
  · intro s₁ tr₁ s₂ tr₂ r s₃ hfirst h hurl
    obtain ⟨hsecond, hstatus⟩ := h (hfirst.1.trans hurl)
    exact ⟨samePR_composes.trans hfirst hsecond, hstatus⟩

theorem Names.pure {url : String} {status : TaskStatus} (h : status.pullRequestURL = url) :
    Effect.Meets (Names url) (pure status : RunM TaskStatus) := by
  intro s tr r s' hend _
  obtain ⟨rfl, rfl, rfl⟩ := Effect.ends_pure hend
  refine ⟨samePR_composes.refl s', fun status' hstatus => ?_⟩
  cases hstatus
  exact h

theorem Names.get {url : String} {f : RunState → RunM TaskStatus}
    (hf : ∀ s : RunState, s.prURL = url → Effect.Meets (Names url) (f s)) :
    Effect.Meets (Names url) (get >>= f) := by
  intro s tr r s' h hurl
  exact hf s hurl s tr r s' (Effect.ends_get_bind h) hurl

theorem runAgent_samePR (notify : Bool) (prompt : String) (remaining : Nat) :
    Effect.Moves SamePR (runAgent notify request prompt remaining) :=
  runAgent_moves samePR_composes (fun hm => Makes.samePR (hm.mono fun o h => Attends.not_opens o h.1))
    (fun s _ => samePR_composes.refl s) (fun _ => addTaskMemory_samePR _) flush_samePR notify prompt
    remaining

/-- The URL of the state once the pull request has been created or updated. -/
theorem createOrUpdatePR_goesBy (repoInfo : RepoInfo) (output : String) (files : List String) :
    Effect.Meets (fun s tr _ s' => s.prURL = request.prURL → GoesBy request tr s'.prURL)
      (createOrUpdatePR request repoInfo output files) := by
  intro s tr r s' h hurl
  unfold createOrUpdatePR at h
  split at h
  · have hcomment := Effect.ends_modify_bind h
    have hmoves : Effect.Moves SamePR (do
        let _ ← commentOnPR request.prURL ("## ✅ Retry succeeded\n\nNew commits pushed.\n\n" ++
          "### Files modified\n" ++ fileList files)
        pure () : RunM Unit) := by
      apply Effect.Moves.bind samePR_composes _ fun _ => Effect.Moves.pure samePR_composes ()
      exact Makes.samePR ((commentOnPR_makes _ _).mono Converses.not_opens)
    obtain ⟨hsame, hcalm⟩ := hmoves _ _ _ _ hcomment
    rw [hsame]
    exact .given hcalm
  · next hnone =>
    have hempty : request.prURL = "" := not_not.mp hnone
    rcases Effect.ends_bind h with ⟨tr₁, tr₂, url, s₁, rfl, h₁, h₂⟩ | ⟨exc, rfl, h₁⟩
    · obtain ⟨rfl, _, rfl⟩ := Effect.ends_modify h₂
      rw [List.append_nil]
      cases createDraftPR_opens _ _ _ _ _ _ _ _ _ _ _ h₁ with
      | done pull hone hworks => exact .opened pull hempty hone hworks
    · obtain ⟨rfl, _⟩ := createDraftPR_makes _ _ _ _ _ _ _ _ _ _ _ h₁
      rw [hurl, hempty]
      cases createDraftPR_opens _ _ _ _ _ _ _ _ _ _ _ h₁ with
      | failed _ hnone hworks => exact .unopened hempty hnone hworks
      | unlabelled pull _ hone hfails => exact .lost pull hempty hone hfails

theorem handleIncomplete_concludes (notify : Bool) (repoInfo : RepoInfo) (output : String)
    (uniqueTools : List String) : Effect.Meets (Concludes request)
      (handleIncomplete notify request repoInfo output uniqueTools) := by
  apply Concludes.of_makes (report_makes (Locally.not_opens _) _ _ _ _) fun _ => id
  intro _
  apply Concludes.of_makes (Makes.attempt id _) fun _ => id
  intro _
  apply Concludes.of_makes (runChecked_makes (Locally.not_opens _) _ _) fun _ => id
  intro _
  apply Concludes.of_makes (runChecked_makes (Locally.not_opens _) _ _) fun _ => id
  intro _
  apply Concludes.of_makes (runChecked_makes (Locally.not_opens _) _ _) fun _ => id
  intro _ s tr r s' h hurl
  rcases Effect.ends_bind h with ⟨tr₁, tr₂, prURL, s₁, rfl, h₁, h₂⟩ | ⟨exc, rfl, h₁⟩
  · -- nothing after the pull request raises
    have hgoes : GoesBy request tr₁ prURL := by
      unfold incompletePR at h₁
      split at h₁
      · obtain ⟨rfl, hprURL, rfl⟩ := Effect.ends_pure h₁
        cases hprURL
        exact .given fun e he => by cases he
      · next hnone =>
        cases createDraftPR_opens _ _ _ _ _ _ _ _ _ _ _ h₁ with
        | done pull hone hworks => exact .opened pull (not_not.mp hnone) hone hworks
    obtain ⟨tr₃, tr₄, _, s₂, rfl, h₃, h₄⟩ := (commentOnPR_returns _ _).ends_bind h₂
    obtain ⟨tr₅, tr₆, _, s₃, rfl, h₅, h₆⟩ := (addTaskMemory_returns _).ends_bind h₄
    obtain ⟨tr₇, tr₈, _, s₄, rfl, h₇, h₈⟩ := flush_returns.ends_bind h₆
    obtain ⟨rfl, rfl, rfl⟩ := Effect.ends_pure h₈
    have hcomment : Calm tr₃ := fun e he => Converses.not_opens _ ((commentOnPR_makes _ _ _ _ _ _ h₃).2 e he)
    have hadd := (addTaskMemory_samePR _ _ _ _ _ h₅).2
    have hflush := (flush_samePR _ _ _ _ h₇).2
    apply hgoes.before
    rw [List.append_nil]
    exact calm_append.mpr ⟨hcomment, calm_append.mpr ⟨hadd, hflush⟩⟩
  · obtain ⟨rfl, _⟩ := incompletePR_makes _ _ _ _ _ _ _ h₁
    dsimp only
    rw [hurl]
    unfold incompletePR at h₁
    split at h₁
    · obtain ⟨_, hraise, _⟩ := Effect.ends_pure h₁
      cases hraise
    · next hnone =>
      have hempty : request.prURL = "" := not_not.mp hnone
      rw [hempty]
      cases createDraftPR_opens _ _ _ _ _ _ _ _ _ _ _ h₁ with
      | failed _ hnothing hworks => exact .unopened hempty hnothing hworks
      | unlabelled pull _ hone hfails => exact .lost pull hempty hone hfails

theorem GoesBy.names {s s₁ s' : RunState} {tr₁ tr₂ : List (Event WorkerOp.Resp)}
    {r : Except Exc TaskStatus} (h : GoesBy request tr₁ s₁.prURL) (hrest : Names s₁.prURL s₁ tr₂ r s') :
    Concludes request s (tr₁ ++ tr₂) r s' := by
  intro _
  obtain ⟨⟨hsame, hcalm⟩, hstatus⟩ := hrest rfl
  cases r with
  | ok status =>
    dsimp only
    rw [hstatus status rfl]
    exact h.before hcalm
  | error exc =>
    dsimp only
    rw [hsame]
    exact h.before hcalm

theorem finishSucceeded_concludes (notify : Bool) (repoInfo : RepoInfo) (output : String)
    (uniqueTools : List String) : Effect.Meets (Concludes request)
      (finishSucceeded notify request repoInfo output uniqueTools) := by
  apply Concludes.of_makes (report_makes (Locally.not_opens _) _ _ _ _) fun _ => id
  intro _
  apply Concludes.of_makes (runChecked_makes (Locally.not_opens _) _ _) fun _ => id
  intro _
  apply Concludes.of_makes (runChecked_makes (Locally.not_opens _) _ _) fun _ => id
  intro _
  apply Concludes.of_makes (report_makes (Locally.not_opens _) _ _ _ _) fun _ => id
  intro _
  apply Concludes.of_makes (filesModified_makes (Locally.not_opens _) _) fun _ => id
  intro files s tr r s' h hurl
  rcases Effect.ends_bind h with ⟨tr₁, tr₂, _, s₁, rfl, h₁, h₂⟩ | ⟨exc, rfl, h₁⟩
  · have hgoes := createOrUpdatePR_goesBy repoInfo output files _ _ _ _ h₁ hurl
    refine hgoes.names ?_ hurl
    refine Names.bind (Makes.samePR (report_makes (Locally.not_opens _) _ _ _ _)) ?_ _ _ _ _ h₂
    intro _
    apply Names.get
    intro s hs
    apply Names.bind (addTaskMemory_samePR _)
    intro _
    have hflush : Effect.Meets (Names s₁.prURL) (do
        report notify request.taskID 98 "Flushing memory to Elasticsearch"
        let _ ← flush
        pure {
          taskID := request.taskID
          phase := .succeeded
          progress := 100
          message := take 500 output
          pullRequestURL := s.prURL }) := by
      apply Names.bind (Makes.samePR (report_makes (Locally.not_opens _) _ _ _ _))
      intro _
      exact Names.bind flush_samePR fun _ => Names.pure hs
    apply Effect.Meets.ite
    · exact Names.bind (addSharedMemory_samePR _) fun _ => hflush
    · exact hflush
  · exact createOrUpdatePR_goesBy repoInfo output files _ _ _ _ h₁ hurl

theorem workOn_concludes (notify : Bool) :
    Effect.Meets (Concludes request) (workOn notify request) :=
  (Concludes.leads request).workOn
    (fun hm => Makes.samePR (hm.mono fun o h => Prepares.not_opens o h.1)) (runAgent_samePR notify)
    (handleIncomplete_concludes notify) (finishSucceeded_concludes notify)

theorem handleFailure_names (exc : Exc) (url : String) :
    Effect.Meets (Names url) (handleFailure request exc) := by
  apply Names.bind
  · apply Effect.Moves.tryCatch samePR_composes
    · apply Effect.Moves.bind samePR_composes (addTaskMemory_samePR _)
      intro _
      exact Effect.Moves.bind samePR_composes flush_samePR fun _ => Effect.Moves.pure samePR_composes ()
    · exact fun _ => Effect.Moves.pure samePR_composes ()
  · intro _
    apply Names.get
    exact fun s hs => Names.pure hs

/-- Whatever happens, the run ends with a status, and the URL in it is the one the run goes by. -/
theorem runTask_goesBy {githubToken : String} {notify : Bool} {tr : List (Event WorkerOp.Resp)}
    {r : Except Exc TaskStatus} {s' : RunState}
    (h : (runTask githubToken notify request).Runs tr (r, s')) :
    ∃ status, r = .ok status ∧ GoesBy request tr status.pullRequestURL := by
  obtain ⟨startTime, rest, rfl, hrun⟩ := Program.runs_call.mp h
  have hattempt : Effect.Meets (Concludes request) (attemptTask githubToken notify request) := by
    apply Concludes.of_makes (report_makes (Locally.not_opens _) _ _ _ _) fun _ => id
    intro _
    apply Concludes.of_makes (runChecked_makes (Locally.not_opens _) _ _) fun _ => id
    exact fun _ => workOn_concludes notify
  have hnow : Calm [⟨.now, startTime⟩] := by
    intro e he
    rw [List.mem_singleton.mp he]
    exact id
  rcases Effect.ends_tryCatch hrun with ⟨status, rfl, h₁⟩ | ⟨tr₁, tr₂, exc, s₁, rfl, h₁, h₂⟩
  · exact ⟨status, rfl, (hattempt _ _ _ _ h₁ rfl).after hnow⟩
  · have hgoes : GoesBy request tr₁ s₁.prURL := hattempt _ _ _ _ h₁ rfl
    obtain ⟨status, rfl⟩ : ∃ status, r = .ok status := handleFailure_returns exc _ _ _ _ h₂
    have hconcludes := hgoes.names (s := .begin request startTime) (handleFailure_names exc _ _ _ _ _ h₂) rfl
    exact ⟨status, rfl, hconcludes.after hnow⟩

end Run

/-! ## The record of a pull request -/

/-- What a run opens is in its status, and no run that is given the URL of the status has to
do with opening a pull request. -/
def Recorded (tr : List (Event WorkerOp.Resp)) (r : Except Exc TaskStatus) : Prop :=
  ∃ status, r = .ok status ∧ ∀ pull ∈ opened tr, status.pullRequestURL = pull.url ∧
    ∀ (githubToken : String) (notify : Bool) (request : TaskRequest)
      (tr' : List (Event WorkerOp.Resp)) (r' : Except Exc TaskStatus × RunState),
      request.prURL = status.pullRequestURL → (runTask githubToken notify request).Runs tr' r' →
        Calm tr'

section Recorded
variable {githubToken : String} {notify : Bool} {request : TaskRequest}
  {tr : List (Event WorkerOp.Resp)} {r : Except Exc TaskStatus} {s' : RunState}

/-- A run whose request has a pull request opens none, and its status has that one. -/
theorem runTask_given (h : (runTask githubToken notify request).Runs tr (r, s'))
    (hurl : request.prURL ≠ "") :
    ∃ status, r = .ok status ∧ Calm tr ∧ status.pullRequestURL = request.prURL := by
  obtain ⟨status, rfl, hgoes⟩ := runTask_goesBy h
  exact ⟨status, rfl, hgoes.of_given hurl⟩

/-- With pull requests that have a URL, what a run opens is recorded exactly if no
`set_labels` raises. -/
theorem pull_recorded_iff (h : (runTask githubToken notify request).Runs tr (r, s'))
    (hurls : ∀ pull ∈ opened tr, pull.url ≠ "") : Recorded tr r ↔ ¬ LabelsFail tr := by
  obtain ⟨status, rfl, hgoes⟩ := runTask_goesBy h
  have hlater : status.pullRequestURL ≠ "" → ∀ (githubToken : String) (notify : Bool)
      (request : TaskRequest) (tr' : List (Event WorkerOp.Resp)) (r' : Except Exc TaskStatus × RunState),
      request.prURL = status.pullRequestURL → (runTask githubToken notify request).Runs tr' r' →
        Calm tr' := by
    intro hne githubToken notify request tr' r' hurl hrun
    obtain ⟨_, _, hcalm, _⟩ := runTask_given hrun (hurl.symm ▸ hne)
    exact hcalm
  generalize hstatus : status.pullRequestURL = url at hgoes hlater
  cases hgoes with
  | given hcalm =>
    refine iff_of_true ⟨status, rfl, fun pull hpull => ?_⟩ hcalm.unopened.2
    rw [hcalm.unopened.1] at hpull
    cases hpull
  | unopened _ hnone hworks =>
    refine iff_of_true ⟨status, rfl, fun pull hpull => ?_⟩ hworks
    rw [hnone] at hpull
    cases hpull
  | opened pull _ hone hworks =>
    refine iff_of_true ⟨status, rfl, fun other hother => ?_⟩ hworks
    rw [hone] at hother hurls
    rw [List.mem_singleton.mp hother, hstatus]
    exact ⟨rfl, hlater (hurls pull (List.mem_singleton_self pull))⟩
  | lost pull _ hone hfails =>
    refine iff_of_false ?_ (not_not_intro hfails)
    rintro ⟨status', hr, hrecorded⟩
    cases hr
    rw [hone] at hrecorded hurls
    obtain ⟨hpull, _⟩ := hrecorded pull (List.mem_singleton_self pull)
    exact hurls pull (List.mem_singleton_self pull) (hpull.symm.trans hstatus)

end Recorded

theorem pull_recorded_demo : opened (demoRun 0).1 = [⟨"url", 1, "open", false, true⟩] ∧
    Recorded (demoRun 0).1 (demoRun 0).2.1.1 := by
  have hopened : opened (demoRun 0).1 = [⟨"url", 1, "open", false, true⟩] := by decide +kernel
  have hrun : (runTask "token" false demoRequest).Runs (demoRun 0).1 (demoRun 0).2.1 := runs_play _ _ _
  refine ⟨hopened, (pull_recorded_iff hrun ?_).mpr (by decide +kernel)⟩
  rw [hopened]
  decide

/-- The labels cannot be set, and nothing else goes wrong. -/
def unlabelledAnswers : (o : WorkerOp) → o.Resp
  | .setLabels _ _ _ => .error ⟨.githubException, "403"⟩
  | o => demoAnswers 0 o

def unlabelledRun : List (Event WorkerOp.Resp) × (Except Exc TaskStatus × RunState) × Unit :=
  play (fun w o => (unlabelledAnswers o, w)) (runTask "token" false demoRequest) ()

/-- The pull request has been made, and the status of the run knows nothing of it. -/
theorem pull_lost : ∃ tr r s', (runTask "token" false demoRequest).Runs tr (r, s') ∧
    (∀ pull ∈ opened tr, pull.url ≠ "") ∧ ¬ Recorded tr r := by
  have hopened : opened unlabelledRun.1 = [⟨"url", 1, "open", false, true⟩] := by decide +kernel
  have hstatus : unlabelledRun.2.1.1.toOption.map TaskStatus.pullRequestURL = some "" := by
    decide +kernel
  refine ⟨unlabelledRun.1, unlabelledRun.2.1.1, unlabelledRun.2.1.2, runs_play _ _ (), ?_, ?_⟩
  · rw [hopened]
    decide
  · rintro ⟨status, hr, hrecorded⟩
    rw [hr] at hstatus
    rw [hopened] at hrecorded
    obtain ⟨hurl, _⟩ := hrecorded _ (List.mem_singleton_self _)
    have hempty : status.pullRequestURL = "" := Option.some.inj hstatus
    rw [hempty] at hurl
    revert hurl
    decide

end BulletFarm.Worker
