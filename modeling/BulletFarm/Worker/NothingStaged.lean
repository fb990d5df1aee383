import BulletFarm.Interaction.Triple
import BulletFarm.Worker.Evaluation
import BulletFarm.Worker.Workspace
import Mathlib.Data.Fintype.Defs

/-!
# A run with nothing staged

An agent that leaves nothing to commit has not completed the task. Whether the run
says so depends on what the agent said and did, and on whether its analysis is a
change to the branch.
-/

namespace BulletFarm.Worker

open Interaction Python

set_option autoImplicit false

def markerFile (request : TaskRequest) : String := workspaceOf request ++ "/.bulletfarm-incomplete.md"

/-! ## GitHub grants -/

section Grants
variable {σ : Type}

theorem ensureEach_returnsIf (repo : String) (existing : List String) (labels : List Label) :
    Effect.ReturnsIf Granted (ensureEach repo existing labels : WorkerM σ Unit) := by
  induction labels with
  | nil => exact Effect.ReturnsIf.pure ()
  | cons label rest ih =>
    apply Effect.ReturnsIf.bind _ fun _ => ih
    apply Effect.ReturnsIf.ite (Effect.ReturnsIf.pure ())
    apply Effect.ReturnsIf.tryCatch
    exact Effect.ReturnsIf.attempt fun x hx => ⟨(), hx⟩

theorem createDraftPR_returnsIf (repoName head base title body taskID agentRef : String) :
    Effect.ReturnsIf Granted
      (createDraftPR repoName head base title body taskID agentRef : WorkerM σ String) := by
  apply Effect.ReturnsIf.bind (Effect.ReturnsIf.attempt fun x hx => hx)
  intro repo
  apply Effect.ReturnsIf.bind
  · apply Effect.ReturnsIf.bind (Effect.ReturnsIf.attempt fun x hx => hx)
    exact fun existing => ensureEach_returnsIf _ _ _
  · intro _
    apply Effect.ReturnsIf.bind (Effect.ReturnsIf.attempt fun x hx => hx)
    intro pull
    apply Effect.ReturnsIf.bind (Effect.ReturnsIf.attempt fun x hx => ⟨(), hx⟩)
    exact fun _ => Effect.ReturnsIf.pure _

theorem incompletePR_returnsIf (request : TaskRequest) (repoInfo : RepoInfo) (output : String) :
    Effect.ReturnsIf Granted (incompletePR request repoInfo output : WorkerM σ String) := by
  apply Effect.ReturnsIf.ite (Effect.ReturnsIf.pure _)
  exact createDraftPR_returnsIf _ _ _ _ _ _ _

end Grants

theorem OnGitHub.aside {o : WorkerOp} (h : OnGitHub o) : Aside o := by
  cases o <;> trivial

/-! ## Blocks in the workspace -/

section Blocks
variable {Path Blob : Type} {site : Site Path Blob} {w : Place Path Blob} {s : RunState}
  {request : TaskRequest}

/-- A block that gives a value and touches neither the state nor the repository. -/
def Still {α : Type} (s : RunState) (w : Place Path Blob) (r : Except Exc α) (s' : RunState)
    (w' : Place Path Blob) : Prop :=
  (∃ a, r = .ok a) ∧ s' = s ∧ w' = w

theorem Makes.still {α : Type} {m : RunM α} (hm : Makes Aside m) (hreturns : Effect.ReturnsIf Granted m) :
    Effect.Within site.Works w s m (Still s w) := by
  intro tr r s' w' h hw
  obtain ⟨rfl, haside⟩ := hm _ _ _ _ h
  exact ⟨hreturns _ _ _ _ h (Site.Works.granted hw), rfl, Site.serves_aside haside (Site.Works.threads hw)⟩

theorem report_still (notify : Bool) (taskID : String) (percent : Int) (message : String) :
    Effect.Within site.Works w s (report notify taskID percent message) (Still s w) := by
  apply Makes.still
  · exact Makes.ite (Makes.ask trivial) (Makes.pure ())
  · intro s tr r s' h _
    exact report_returns _ _ _ _ _ _ _ _ h

theorem incompletePR_still (repoInfo : RepoInfo) (output : String) :
    Effect.Within site.Works w s (incompletePR request repoInfo output) (Still s w) :=
  Makes.still ((incompletePR_makes _ _ _).mono fun _ => OnGitHub.aside) (incompletePR_returnsIf _ _ _)

theorem runAdd_within (cwd : Option String) :
    Effect.Within site.Works w s (runChecked ["git", "add", "-A"] cwd) fun r s' w' =>
      (∃ p, r = .ok p) ∧ s' = s ∧ w' = { w with clone := site.addAll w.clone } := by
  apply Effect.Within.attempt
  rintro x w' ⟨hserves, p, rfl, hp⟩
  obtain ⟨success, hsuccess, hdoes, _⟩ := hserves
  rw [hsuccess.mpr hp] at hdoes
  refine ⟨⟨p, ?_⟩, rfl, hdoes⟩
  simp [checked, hp]

theorem runPush_within (branch : String) (cwd : Option String) :
    Effect.Within site.Works w s (runChecked ["git", "push", "-u", "origin", branch] cwd)
      fun r _ _ => ∃ p, r = .ok p := by
  apply Effect.Within.attempt
  rintro x w' ⟨_, p, rfl, hp⟩
  refine ⟨p, ?_⟩
  simp [checked, hp]

theorem runCommit_within (message : String) (cwd : Option String) :
    Effect.Within site.Works w s (runChecked ["git", "commit", "-m", message] cwd)
      fun r _ _ => (∃ p, r = .ok p) ↔ w.clone.Staged := by
  apply Effect.Within.attempt
  rintro x w' ⟨hserves, p, rfl, hp⟩
  obtain ⟨success, hsuccess, hdoes, _⟩ := hserves
  constructor
  · rintro ⟨p', hok⟩
    have hzero : p.returncode = 0 := by
      by_contra hne
      simp [checked, hne] at hok
    rw [hsuccess.mpr hzero] at hdoes
    exact hdoes.1
  · intro hstaged
    refine ⟨p, ?_⟩
    simp [checked, hp hstaged]

theorem writeMarker_within (path text : String) :
    Effect.Within site.Works w s (writeFile path text) fun r _ w' =>
      match site.write w.clone.work (site.locate path) text with
      | some work => r = .ok () ∧ w' = { w with clone := { w.clone with work := work } }
      | none => ∃ exc, r = .error exc := by
  apply Effect.Within.attempt
  rintro x w' ⟨hserves, hobliges⟩
  cases hwrite : site.write w.clone.work (site.locate path) text with
  | some work =>
    have hok : x = .ok () := hobliges (by rw [hwrite]; rfl)
    subst hok
    obtain ⟨work', hwork, rfl⟩ := hserves
    rw [hwrite] at hwork
    cases hwork
    exact ⟨rfl, rfl⟩
  | none =>
    cases x with
    | error exc => exact ⟨exc, rfl⟩
    | ok _ =>
      obtain ⟨work', hwork, _⟩ := hserves
      rw [hwrite] at hwork
      cases hwork

end Blocks

/-! ## The two ways on -/

section Ways
variable {Path Blob : Type} {site : Site Path Blob} {w : Place Path Blob} {s : RunState}
  {request : TaskRequest} {repoInfo : RepoInfo}

theorem finishSucceeded_within (notify : Bool) (output : String) (uniqueTools : List String)
    (hclean : ¬ w.clone.Staged) :
    Effect.Within site.Works w s (finishSucceeded notify request repoInfo output uniqueTools)
      fun r _ _ => ∃ exc, r = .error exc := by
  refine Effect.Within.skip (report_still _ _ _ _) fun _ => ?_
  refine Effect.Within.bind (runCommit_within _ _) ?_ ?_
  · exact fun p s' w' hcommit => absurd (hcommit.mp ⟨p, rfl⟩) hclean
  · exact fun exc _ _ _ => ⟨exc, rfl⟩

/-- What is left of an incomplete run once its commit has gone through. -/
theorem recordIncomplete_within {doc : String → Dict} {status : String → TaskStatus} {comment : String}
    (hphase : ∀ prURL, (status prURL).phase = .incomplete) (output : String) :
    Effect.Within site.Works w s (do
        let _ ← runChecked ["git", "push", "-u", "origin", branchName request]
          (some (workspaceOf request))
        let prURL ← incompletePR request repoInfo output
        let _ ← commentOnPR prURL comment
        addTaskMemory (doc prURL)
        let _ ← flush
        pure (status prURL)) fun r _ _ => ∃ status, r = .ok status ∧ status.phase = .incomplete := by
  refine Effect.Within.bind (runPush_within _ _) ?_ ?_
  · rintro p s₁ w₁ _
    refine Effect.Within.skip (incompletePR_still _ _) fun prURL => ?_
    intro tr r s' w' h _
    obtain ⟨_, _, _, s₂, _, _, h⟩ := (commentOnPR_returns prURL comment).ends_bind h
    obtain ⟨_, _, _, s₃, _, _, h⟩ := (addTaskMemory_returns (doc prURL)).ends_bind h
    obtain ⟨_, _, _, s₄, _, _, h⟩ := flush_returns.ends_bind h
    exact ⟨status prURL, (Effect.ends_pure h).2.1, hphase prURL⟩
  · rintro exc _ _ ⟨p, hp⟩
    cases hp

/-- The run is incomplete exactly if its analysis is something to commit. -/
theorem handleIncomplete_within (notify : Bool) (output : String) (uniqueTools : List String) :
    Effect.Within site.Works w s (handleIncomplete notify request repoInfo output uniqueTools)
      fun r _ _ => (∃ status, r = .ok status ∧ status.phase = .incomplete) ↔
        site.Records w.clone (site.locate (markerFile request))
          (incompleteAnalysis request output uniqueTools) := by
  have hnever : ∀ (exc : Exc), ¬ ∃ status : TaskStatus,
      (.error exc : Except Exc TaskStatus) = .ok status ∧ status.phase = .incomplete := by
    rintro exc ⟨status, h, _⟩
    cases h
  unfold Git.Rules.Records
  refine Effect.Within.skip (report_still _ _ _ _) fun _ => ?_
  refine Effect.Within.bind (writeMarker_within (markerFile request) _) ?_ ?_
  · intro _ s₁ w₁ hwritten
    cases hwrite : site.write w.clone.work (site.locate (markerFile request))
        (incompleteAnalysis request output uniqueTools) with
    | none =>
      rw [hwrite] at hwritten
      obtain ⟨exc, hexc⟩ := hwritten
      cases hexc
    | some work =>
      rw [hwrite] at hwritten
      obtain ⟨_, rfl⟩ := hwritten
      have hrecords : (∃ work', some work = some work' ∧
          (site.addAll { w.clone with work := work' }).Staged) ↔
          (site.addAll { w.clone with work := work }).Staged := by simp
      rw [hrecords]
      refine Effect.Within.bind (runAdd_within _) ?_ ?_
      · rintro _ s₂ w₂ ⟨_, _, rfl⟩
        refine Effect.Within.bind (runCommit_within _ _) ?_ ?_
        · intro _ s₃ w₃ hcommit
          refine (recordIncomplete_within (fun _ => rfl) output).mono ?_
          intro r _ _ hr
          exact iff_of_true hr (hcommit.mp ⟨_, rfl⟩)
        · intro exc _ _ hcommit
          refine iff_of_false (hnever exc) fun hstaged => ?_
          obtain ⟨p, hp⟩ := hcommit.mpr hstaged
          cases hp
      · rintro exc _ _ ⟨⟨p, hp⟩, _⟩
        cases hp
  · intro exc s₁ w₁ hwritten
    refine iff_of_false (hnever exc) ?_
    rintro ⟨work, hwork, _⟩
    rw [hwork] at hwritten
    cases hwritten.1

end Ways

/-! ## The evaluation -/

section Evaluation
variable {Path Blob : Type} {site : Site Path Blob} {w w' : Place Path Blob} {request : TaskRequest}
  {s s' : RunState} {tr : List (Event WorkerOp.Resp)} {r : Except Exc TaskStatus}

/-- Everything is staged, what is staged is looked at, and the run goes one of two ways. -/
theorem evaluate_ends {notify : Bool} {repoInfo : RepoInfo} {messages : List Message}
    (h : (evaluate notify request repoInfo messages).Ends s tr r s')
    (hw : Threads site.Works w tr w') :
    ∃ tr₁ p tools tr₂ g, tr = tr₁ ++ ⟨.run diffStat (some (workspaceOf request)), .ok p⟩ ::
        ⟨.setOrder (toolsCalled messages), tools⟩ :: tr₂ ∧
      Apart tr₁ ∧ Threads site.Works w tr₁ g ∧ Threads site.Works g tr₂ w' ∧
      (strip p.stdout = "" ↔ ¬ g.clone.Staged) ∧
      Effect.Ends (if taskIncomplete (strip p.stdout != "") (outputText messages) tools.val then
          handleIncomplete notify request repoInfo (outputText messages) tools.val
        else finishSucceeded notify request repoInfo (outputText messages) tools.val) s tr₂ r s' := by
  obtain ⟨tr₁, tr₂, _, s₁, rfl, h₁, hadd⟩ := (report_returns _ _ _ _).ends_bind h
  obtain ⟨rfl, hreport⟩ := (report_makes Locally.prepares _ _ _ _).apart Prepares.apart h₁
  obtain ⟨w₁, hw₁, hw₂⟩ := hw.of_append
  rcases Effect.ends_bind hadd with ⟨tr₃, tr₄, _, s₂, rfl, h₂, hdiff⟩ | ⟨exc, rfl, h₂⟩
  · obtain ⟨w₂, hw₃, hw₄⟩ := hw₂.of_append
    obtain ⟨x, rfl, _, rfl⟩ := Effect.ends_attempt h₂
    rcases Effect.ends_bind hdiff with ⟨tr₅, tr₆, diff, s₃, rfl, h₃, hset⟩ | ⟨exc, rfl, h₃⟩
    · obtain ⟨y, rfl, hy, rfl⟩ := Effect.ends_attempt h₃
      obtain ⟨tools, tr₇, rfl, hrest⟩ := Effect.ends_call_bind hset
      obtain ⟨w₃, ⟨hserves, _⟩, hw₅⟩ := hw₄.of_cons
      obtain ⟨w₄, htools, hw₆⟩ := hw₅.of_cons
      have hsame : w₄ = w₃ := htools.1
      rw [show y = .ok diff from hy.symm] at hserves ⊢
      obtain ⟨success, _, hdoes, hstat⟩ := hserves
      have hstill : w₃ = w₂ := hdoes
      subst hsame hstill
      refine ⟨tr₁ ++ [⟨.run ["git", "add", "-A"] (some (workspaceOf request)), x⟩], diff, tools, tr₇,
        _, by simp [diffStat], ?_, hw₁.append hw₃, hw₆, hstat rfl, hrest⟩
      refine apart_append.mpr ⟨hreport, fun e he => ?_⟩
      rw [List.mem_singleton.mp he]
      rfl
    · obtain ⟨y, rfl, hy, rfl⟩ := Effect.ends_attempt h₃
      obtain ⟨w₃, ⟨_, hobliges⟩, _⟩ := hw₄.of_cons
      obtain ⟨p, hp⟩ := hobliges rfl
      rw [show y = .error exc from hy.symm] at hp
      cases hp
  · obtain ⟨⟨p, hp⟩, _⟩ := runAdd_within _ _ _ _ _ h₂ hw₂
    cases hp

/-- With nothing staged, a run whose agent has finished is incomplete exactly if the agent
admits a failure or has not used a tool that edits, and its analysis is a change to what
the branch has. -/
theorem nothing_staged_incomplete_iff {githubToken : String} {notify : Bool}
    (h : (runTask githubToken notify request).Runs tr (r, s')) (hw : Threads site.Works w tr w')
    (hfinishes : Finishes tr) :
    ∃ tr₁ p tools tr₂ g, tr = tr₁ ++ ⟨.run diffStat (some (workspaceOf request)), .ok p⟩ ::
        ⟨.setOrder (toolsCalled (answered tr₁)), tools⟩ :: tr₂ ∧
      Threads site.Works w tr₁ g ∧
      (strip p.stdout = "" → ∃ status, r = .ok status ∧ (status.phase = .incomplete ↔
        taskIncomplete false (outputText (answered tr₁)) tools.val = true ∧
          site.Records g.clone (site.locate (markerFile request))
            (incompleteAnalysis request (outputText (answered tr₁)) tools.val))) := by
  obtain ⟨tr₁, tr₂, tr₃, repoInfo, s₁, r₁, s₂, rfl, _, hevaluate, hend⟩ :=
    runTask_evaluation h hfinishes
  obtain ⟨w₂, hw₂, hw₃⟩ := hw.of_append
  obtain ⟨w₁, hw₁, hw₂⟩ := hw₂.of_append
  generalize hmessages : answered tr₁ = messages at hevaluate
  obtain ⟨tr₄, p, tools, tr₅, g, rfl, hapart, hw₄, hw₅, hstat, hrest⟩ := evaluate_ends hevaluate hw₂
  -- looking at what is staged adds nothing to what the agent has said
  have hanswered : messages = answered (tr₁ ++ tr₄) := by
    rw [← hmessages]
    unfold answered
    rw [List.foldl_append, hapart.keeps]
  subst hanswered
  refine ⟨tr₁ ++ tr₄, p, tools, tr₅ ++ tr₃, g, by simp, hw₁.append hw₄, fun hempty => ?_⟩
  have hchanges : (strip p.stdout != "") = false := by rw [hempty]; rfl
  rw [hchanges] at hrest
  suffices (∃ status, r₁ = .ok status ∧ status.phase = .incomplete) ↔
      taskIncomplete false (outputText (answered (tr₁ ++ tr₄))) tools.val = true ∧
        site.Records g.clone (site.locate (markerFile request))
          (incompleteAnalysis request (outputText (answered (tr₁ ++ tr₄))) tools.val) by
    rw [← this]
    rcases hend with ⟨⟨status, rfl, rfl⟩, _⟩ | ⟨⟨exc, rfl⟩, status, rfl, hfailed⟩
    · refine ⟨status, rfl, fun hphase => ⟨status, rfl, hphase⟩, ?_⟩
      rintro ⟨status', hstatus, hphase⟩
      cases hstatus
      exact hphase
    · refine ⟨status, rfl, iff_of_false (by rw [hfailed]; decide) ?_⟩
      rintro ⟨status', hstatus, _⟩
      cases hstatus
  split at hrest
  · next hincomplete =>
    rw [and_iff_right hincomplete]
    exact handleIncomplete_within _ _ _ _ _ _ _ hrest hw₅
  · next hcomplete =>
    obtain ⟨exc, rfl⟩ := finishSucceeded_within _ _ _ (hstat.mp hempty) _ _ _ _ hrest hw₅
    refine iff_of_false ?_ fun h => hcomplete h.1
    rintro ⟨status, hstatus, _⟩
    cases hstatus

end Evaluation

/-! ## An agent that edits nothing -/

/-- A clone of two files, the second of which is the one with the analysis. -/
def demoSite : Site Bool String where
  ignored _ _ := false
  write work path text := some (Function.update work path (some text))
  locate _ := true

def demoPlace : Place Bool String := ⟨"main", fun _ => some fun _ => none, .fresh fun _ => none⟩

/-- The agent starts the tool that edits code, changes nothing and says that it is done. -/
def idleRun : List (Event WorkerOp.Resp) × (Except Exc TaskStatus × RunState) × Place Bool String :=
  play (demoSite.respond fun work => (demoStream 0, work)) (runTask "token" false demoRequest) demoPlace

theorem idleRun_works : Threads demoSite.Works demoPlace idleRun.1 idleRun.2.2 :=
  demoSite.works_play _ _ _

theorem idleRun_finishes : Finishes idleRun.1 := Or.inl (by decide +kernel)

theorem nothing_staged_incomplete_iff_demo :
    ∃ tr₁ p tools tr₂ g, idleRun.1 = tr₁ ++
        ⟨.run diffStat (some (workspaceOf demoRequest)), .ok p⟩ ::
        ⟨.setOrder (toolsCalled (answered tr₁)), tools⟩ :: tr₂ ∧
      Threads demoSite.Works demoPlace tr₁ g ∧
      (strip p.stdout = "" → ∃ status, idleRun.2.1.1 = .ok status ∧ (status.phase = .incomplete ↔
        taskIncomplete false (outputText (answered tr₁)) tools.val = true ∧
          demoSite.Records g.clone (demoSite.locate (markerFile demoRequest))
            (incompleteAnalysis demoRequest (outputText (answered tr₁)) tools.val))) :=
  nothing_staged_incomplete_iff (runs_play _ _ _) idleRun_works idleRun_finishes

/-- The process that lists what is staged lists nothing. -/
def listsNothing : Event WorkerOp.Resp → Bool
  | ⟨.run cmd _, .ok p⟩ => decide (cmd = diffStat) && decide (strip p.stdout = "")
  | _ => false

/-- Nothing is staged and the run fails. -/
theorem nothing_staged_fails : ∃ tr r s' w' status,
    (runTask "token" false demoRequest).Runs tr (r, s') ∧ Threads demoSite.Works demoPlace tr w' ∧
      Finishes tr ∧ (∃ e ∈ tr, listsNothing e = true) ∧ r = .ok status ∧ status.phase = .failed := by
  have hphase : idleRun.2.1.1.toOption.map TaskStatus.phase = some .failed := by decide +kernel
  have hlists : idleRun.1.any listsNothing = true := by decide +kernel
  cases hr : idleRun.2.1.1 with
  | error exc =>
    rw [hr] at hphase
    cases hphase
  | ok status =>
    rw [hr] at hphase
    refine ⟨idleRun.1, _, idleRun.2.1.2, idleRun.2.2, status, ?_, idleRun_works, idleRun_finishes,
      List.any_eq_true.mp hlists, rfl, Option.some.inj hphase⟩
    rw [← hr]
    exact runs_play _ _ _

end BulletFarm.Worker
