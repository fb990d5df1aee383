import BulletFarm.Worker.Registry

/-!
# The finalize route

`mark_pr_ready` says with its result whether GitHub has marked the pull request ready
for review. `finalize_task` does not look at the result: it tells a raised exception from
everything else, and no more.
-/

namespace BulletFarm.Worker

open Interaction Python

set_option autoImplicit false

variable {σ : Type}

/-- A reply to `requests.post`, with what `json()` makes of its body. -/
structure HTTPResponse where
  statusCode : Nat
  json : Except Exc Json.Value

/-- The calls of `mark_pr_ready`. A pull request comes with its `raw_data`. -/
inductive FinalizeOp where
  | getRepo (name : String)
  | getPull (repo : String) (number : Nat)
  | post (url : String) (json : Json.Value) (headers : List (String × String)) (timeout : Nat)

@[reducible] def FinalizeOp.Resp : FinalizeOp → Type
  | getRepo _ => Except Exc Repo
  | getPull _ _ => Except Exc Dict
  | post _ _ _ _ => Except Exc HTTPResponse

abbrev FinalizeM (σ : Type) : Type → Type := Effect Exc FinalizeOp FinalizeOp.Resp σ

/-- `s in v`. -/
def isIn (s : String) : Json.Value → Except Exc Bool
  | .str t => .ok (contains t s)
  | .arr items => .ok (items.any fun v => v.asString == some s)
  | .obj members => .ok (members.any fun m => m.1 == s)
  | v => .error (typeError ("argument of type '" ++ typeName v ++ "' is not a container or iterable"))

def markReadyMutation : String :=
  "\n        mutation($pullRequestId: ID!) \x7b\n" ++
  "            markPullRequestReadyForReview(input: \x7bpullRequestId: $pullRequestId\x7d) \x7b\n" ++
  "                pullRequest \x7b isDraft \x7d\n" ++
  "            \x7d\n        \x7d\n        "

/-- The mutation is posted and its outcome read. -/
def postMarkReady (githubToken : String) (nodeID : Json.Value) : FinalizeM σ Bool := do
  let resp ← .attempt (FinalizeOp.post "https://api.github.com/graphql"
    (.obj [("query", .str markReadyMutation), ("variables", .obj [("pullRequestId", nodeID)])])
    [("Authorization", "Bearer " ++ githubToken), ("Content-Type", "application/json")] 30) id
  if resp.statusCode = 200 then do
    let errors ← .ofExcept (resp.json.bind (isIn "errors"))
    pure (!errors)
  else pure false

def markPRReady (githubToken prURL : String) : FinalizeM σ Bool :=
  match parsePullURL prURL with
  | none => pure false
  | some (repoName, number) => do
    let repo ← .attempt (FinalizeOp.getRepo repoName) id
    let rawData ← .attempt (FinalizeOp.getPull repo.fullName number) id
    let nodeID := rawData.get "node_id" (.str "")
    if truthy nodeID then postMarkReady githubToken nodeID else pure false

/-- The name of a member, as an f-string prints it. -/
def TaskPhase.member : TaskPhase → String
  | .pending => "TaskPhase.PENDING"
  | .running => "TaskPhase.RUNNING"
  | .succeeded => "TaskPhase.SUCCEEDED"
  | .incomplete => "TaskPhase.INCOMPLETE"
  | .failed => "TaskPhase.FAILED"
  | .waitingForPR => "TaskPhase.WAITING_FOR_PR"
  | .merged => "TaskPhase.MERGED"
  | .closed => "TaskPhase.CLOSED"

/-- The message of a status is replaced where it stands. -/
def setMessage (taskID : String) (status : TaskStatus) (message : String) :
    FinalizeM Registry (Except HTTPException TaskStatus) := do
  let status := { status with message := message }
  modify fun statuses => statuses.set taskID status
  pure (.ok status)

def finalizeTask (githubToken taskID : String) :
    FinalizeM Registry (Except HTTPException TaskStatus) := do
  match (← get) taskID with
  | none => pure (.error ⟨404, "Task " ++ taskID ++ " not found"⟩)
  | some status =>
    if status.phase ≠ .succeeded then
      pure (.error ⟨400, "Task " ++ taskID ++ " is in phase " ++ status.phase.member ++
        ", not Succeeded"⟩)
    else if status.pullRequestURL ≠ "" then
      tryCatch (do
        let _ ← markPRReady githubToken status.pullRequestURL
        setMessage taskID status "PR marked ready for review") fun exc =>
          setMessage taskID status (take 500 ("Finalize error: " ++ exc.text))
    else pure (.ok status)

/-! ## What comes of the answers -/

/-- What an answer of GitHub means to `mark_pr_ready`. -/
inductive Verdict where
  | agrees
  | refuses
  | raises
deriving DecidableEq, Repr

def verdict : Event FinalizeOp.Resp → Verdict
  | ⟨.getRepo _, .ok _⟩ => .agrees
  | ⟨.getPull _ _, .ok rawData⟩ => if truthy (rawData.get "node_id" (.str "")) then .agrees else .refuses
  | ⟨.post _ _ _ _, .ok resp⟩ =>
    if resp.statusCode = 200 then
      match resp.json.bind (isIn "errors") with
      | .ok errors => if errors then .refuses else .agrees
      | .error _ => .raises
    else .refuses
  | ⟨.getRepo _, .error _⟩ | ⟨.getPull _ _, .error _⟩ | ⟨.post _ _ _ _, .error _⟩ => .raises

/-- The URL is one of a pull request, and GitHub agrees to everything. -/
def Marks (prURL : String) (tr : List (Event FinalizeOp.Resp)) : Prop :=
  parsePullURL prURL ≠ none ∧ ∀ e ∈ tr, verdict e = .agrees

instance (prURL : String) (tr : List (Event FinalizeOp.Resp)) : Decidable (Marks prURL tr) :=
  inferInstanceAs (Decidable (_ ∧ _))

/-- How the answers decide a result: all of them agree, one refuses, or one raises. -/
inductive Decides (prURL : String) (tr : List (Event FinalizeOp.Resp)) : Except Exc Bool → Prop where
  | marked : Marks prURL tr → Decides prURL tr (.ok true)
  | refused : parsePullURL prURL = none ∨ (∃ e ∈ tr, verdict e = .refuses) → Decides prURL tr (.ok false)
  | raised (exc : Exc) : (∃ e ∈ tr, verdict e = .raises) → Decides prURL tr (.error exc)

section Ends
variable {githubToken prURL taskID : String} {s s' : σ} {tr : List (Event FinalizeOp.Resp)}

theorem postMarkReady_decides {nodeID : Json.Value} {r : Except Exc Bool} (hurl : parsePullURL prURL ≠ none)
    (h : (postMarkReady githubToken nodeID : FinalizeM σ Bool).Ends s tr r s') :
    s' = s ∧ Decides prURL tr r := by
  rcases Effect.ends_bind h with ⟨tr₁, tr₂, resp, s₁, rfl, h₁, h₂⟩ | ⟨exc, rfl, h₁⟩
  · obtain ⟨x, rfl, hx, rfl⟩ := Effect.ends_attempt h₁
    cases hx
    split at h₂
    · rename_i hcode
      rcases Effect.ends_bind h₂ with ⟨tr₃, tr₄, errors, s₂, rfl, h₃, h₄⟩ | ⟨exc, rfl, h₃⟩
      · obtain ⟨rfl, hjson, rfl⟩ := Effect.ends_ofExcept h₃
        obtain ⟨rfl, rfl, rfl⟩ := Effect.ends_pure h₄
        cases errors with
        | false => exact ⟨rfl, .marked ⟨hurl, by simp [verdict, hcode, ← hjson]⟩⟩
        | true => exact ⟨rfl, .refused (Or.inr (by simp [verdict, hcode, ← hjson]))⟩
      · obtain ⟨rfl, hjson, rfl⟩ := Effect.ends_ofExcept h₃
        exact ⟨rfl, .raised exc (by simp [verdict, hcode, ← hjson])⟩
    · rename_i hcode
      obtain ⟨rfl, rfl, rfl⟩ := Effect.ends_pure h₂
      exact ⟨rfl, .refused (Or.inr (by simp [verdict, hcode]))⟩
  · obtain ⟨x, rfl, hx, rfl⟩ := Effect.ends_attempt h₁
    cases hx
    exact ⟨rfl, .raised exc (by simp [verdict])⟩

theorem Decides.cons {e : Event FinalizeOp.Resp} {r : Except Exc Bool} (h : Decides prURL tr r)
    (he : verdict e = .agrees) : Decides prURL (e :: tr) r := by
  cases h with
  | marked hm => exact .marked ⟨hm.1, List.forall_mem_cons.mpr ⟨he, hm.2⟩⟩
  | refused hr =>
    refine .refused (hr.imp_right ?_)
    exact fun ⟨e', he', hv⟩ => ⟨e', List.mem_cons_of_mem e he', hv⟩
  | raised exc hr =>
    obtain ⟨e', he', hv⟩ := hr
    exact .raised exc ⟨e', List.mem_cons_of_mem e he', hv⟩

/-- The answers to `mark_pr_ready` decide its result. -/
theorem markPRReady_decides {r : Except Exc Bool}
    (h : (markPRReady githubToken prURL : FinalizeM σ Bool).Ends s tr r s') :
    s' = s ∧ Decides prURL tr r := by
  unfold markPRReady at h
  cases hparse : parsePullURL prURL with
  | none =>
    rw [hparse] at h
    obtain ⟨rfl, rfl, rfl⟩ := Effect.ends_pure h
    exact ⟨rfl, .refused (Or.inl hparse)⟩
  | some target =>
    have hurl : parsePullURL prURL ≠ none := by simp [hparse]
    rw [hparse] at h
    rcases Effect.ends_bind h with ⟨tr₁, tr₂, repo, s₁, rfl, h₁, h₂⟩ | ⟨exc, rfl, h₁⟩
    · obtain ⟨x, rfl, hx, rfl⟩ := Effect.ends_attempt h₁
      cases hx
      rcases Effect.ends_bind h₂ with ⟨tr₃, tr₄, rawData, s₂, rfl, h₃, h₄⟩ | ⟨exc, rfl, h₃⟩
      · obtain ⟨x, rfl, hx, rfl⟩ := Effect.ends_attempt h₃
        cases hx
        dsimp only at h₄
        split at h₄
        · rename_i hnode
          obtain ⟨rfl, hdecides⟩ := postMarkReady_decides hurl h₄
          exact ⟨rfl, (hdecides.cons (by simp [verdict, hnode])).cons rfl⟩
        · rename_i hnode
          obtain ⟨rfl, rfl, rfl⟩ := Effect.ends_pure h₄
          exact ⟨rfl, .refused (Or.inr (by simp [verdict, hnode]))⟩
      · obtain ⟨x, rfl, hx, rfl⟩ := Effect.ends_attempt h₃
        cases hx
        exact ⟨rfl, .raised exc (by simp [verdict])⟩
    · obtain ⟨x, rfl, hx, rfl⟩ := Effect.ends_attempt h₁
      cases hx
      exact ⟨rfl, .raised exc (by simp [verdict])⟩

/-- It returns True exactly if everything agrees. -/
theorem markPRReady_true_iff {r : Except Exc Bool}
    (h : (markPRReady githubToken prURL : FinalizeM σ Bool).Ends s tr r s') :
    r = .ok true ↔ Marks prURL tr := by
  obtain ⟨_, hdecides⟩ := markPRReady_decides h
  cases hdecides with
  | marked hm => simp [hm]
  | refused hr =>
    refine ⟨fun h => (by cases h), fun hm => ?_⟩
    rcases hr with hnone | ⟨e, he, hv⟩
    · exact absurd hnone hm.1
    · rw [hm.2 e he] at hv
      cases hv
  | raised exc hr =>
    refine ⟨fun h => (by cases h), fun hm => ?_⟩
    obtain ⟨e, he, hv⟩ := hr
    rw [hm.2 e he] at hv
    cases hv

theorem setMessage_ends {statuses statuses' : Registry} {status : TaskStatus} {message : String}
    {r : Except Exc (Except HTTPException TaskStatus)}
    (h : (setMessage taskID status message).Ends statuses tr r statuses') :
    tr = [] ∧ r = .ok (.ok { status with message := message }) ∧
      statuses' = statuses.set taskID { status with message := message } := by
  have hrest := Effect.ends_modify_bind (f := fun _ => pure _) h
  obtain ⟨rfl, rfl, rfl⟩ := Effect.ends_pure hrest
  exact ⟨rfl, rfl, rfl⟩

/-- What has come of a finalize request: the status of a task with a pull request gets a
message that says whether `mark_pr_ready` has raised; any other is left as it is. -/
inductive Finalized (githubToken taskID : String) (statuses : Registry)
    (tr : List (Event FinalizeOp.Resp)) : Except HTTPException TaskStatus → Registry → Prop where
  | rejected {exc : HTTPException} :
      (∀ status, statuses taskID = some status → status.phase ≠ .succeeded) →
      Finalized githubToken taskID statuses tr (.error exc) statuses
  | nothing {status : TaskStatus} : statuses taskID = some status → status.phase = .succeeded →
      status.pullRequestURL = "" → Finalized githubToken taskID statuses tr (.ok status) statuses
  | marked {status : TaskStatus} {marked : Bool} : statuses taskID = some status →
      status.phase = .succeeded → status.pullRequestURL ≠ "" →
      Decides status.pullRequestURL tr (.ok marked) →
      Finalized githubToken taskID statuses tr (.ok { status with message := "PR marked ready for review" })
        (statuses.set taskID { status with message := "PR marked ready for review" })
  | raised {status : TaskStatus} {exc : Exc} : statuses taskID = some status →
      status.phase = .succeeded → status.pullRequestURL ≠ "" →
      Decides status.pullRequestURL tr (.error exc) →
      Finalized githubToken taskID statuses tr
        (.ok { status with message := take 500 ("Finalize error: " ++ exc.text) })
        (statuses.set taskID { status with message := take 500 ("Finalize error: " ++ exc.text) })

theorem finalizeTask_ends {statuses statuses' : Registry}
    {r : Except Exc (Except HTTPException TaskStatus)}
    (h : (finalizeTask githubToken taskID).Ends statuses tr r statuses') :
    ∃ reply, r = .ok reply ∧ Finalized githubToken taskID statuses tr reply statuses' := by
  have hrest := Effect.ends_get_bind h
  cases hstatus : statuses taskID with
  | none =>
    rw [hstatus] at hrest
    obtain ⟨_, rfl, rfl⟩ := Effect.ends_pure hrest
    exact ⟨_, rfl, .rejected (by simp [hstatus])⟩
  | some status =>
    simp only [hstatus] at hrest
    split at hrest
    · rename_i hphase
      obtain ⟨_, rfl, rfl⟩ := Effect.ends_pure hrest
      refine ⟨_, rfl, .rejected ?_⟩
      intro other hother
      rw [hstatus] at hother
      cases hother
      exact hphase
    rename_i hphase
    split at hrest
    · rename_i hurl
      rcases Effect.ends_tryCatch hrest with ⟨reply, rfl, h₁⟩ | ⟨tr₁, tr₂, exc, s₁, rfl, h₁, h₂⟩
      · rcases Effect.ends_bind h₁ with ⟨tr₁, tr₂, marked, s₁, rfl, h₂, h₃⟩ | ⟨_, he, _⟩
        · obtain ⟨rfl, hdecides⟩ := markPRReady_decides h₂
          obtain ⟨rfl, hreply, rfl⟩ := setMessage_ends h₃
          cases hreply
          rw [List.append_nil]
          exact ⟨_, rfl, .marked hstatus (not_not.mp hphase) hurl hdecides⟩
        · cases he
      · rcases Effect.ends_bind h₁ with ⟨tr₃, tr₄, marked, s₂, rfl, _, h₃⟩ | ⟨_, he, h₃⟩
        · obtain ⟨_, he, _⟩ := setMessage_ends h₃
          cases he
        · cases he
          obtain ⟨rfl, hdecides⟩ := markPRReady_decides h₃
          obtain ⟨rfl, rfl, rfl⟩ := setMessage_ends h₂
          rw [List.append_nil]
          exact ⟨_, rfl, .raised hstatus (not_not.mp hphase) hurl hdecides⟩
    · rename_i hurl
      obtain ⟨_, rfl, rfl⟩ := Effect.ends_pure hrest
      exact ⟨_, rfl, .nothing hstatus (not_not.mp hphase) (not_not.mp hurl)⟩

theorem takeError_ne (exc : Exc) :
    take 500 ("Finalize error: " ++ exc.text) ≠ "PR marked ready for review" := by
  intro h
  have hlist := congrArg String.toList h
  simp [take] at hlist

/-- To the registry it is a step of the process, or nothing. -/
theorem Finalized.steps {p : Process} {reply : Except HTTPException TaskStatus} {statuses : Registry}
    (h : Finalized githubToken taskID p.statuses tr reply statuses) :
    Relation.ReflTransGen Process.Step p { p with statuses := statuses } := by
  cases h with
  | rejected _ => exact .refl
  | nothing _ _ _ => exact .refl
  | marked hstatus hphase _ _ => exact .single (.finalize _ hstatus hphase)
  | raised hstatus hphase _ _ => exact .single (.finalize _ hstatus hphase)

end Ends

end BulletFarm.Worker
