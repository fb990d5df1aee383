import BulletFarm.Worker.Regraduate

/-!
# Two documents for one task

Whether a result is found is up to the search, and what is left of the documents to the deletion.
So requests of which two may store do store twice in some way of carrying them out, and this says
exactly which sequences of requests add at most one document.
-/

namespace BulletFarm.Worker

open Interaction Python GraduateRequest

set_option autoImplicit false

/-! ## What a search may find -/

/-- A result that a search which sees these documents may find. -/
structure Newest {α : Type} [LinearOrder α] (timestamp : Dict → α) (taskID : String) (seen : Elastic)
    (d : Dict) : Prop where
  mem : d ∈ seen taskMemoryIndex
  succeeded : succeededOf taskID d = true
  newest : ∀ d' ∈ seen taskMemoryIndex, succeededOf taskID d' = true → timestamp d' ≤ timestamp d

/-- A document can be made of whatever the search finds, or it may find any Succeeded document. -/
def Indifferent {α : Type} [LinearOrder α] (timestamp : Dict → α) (taskID : String) (w : Indices) :
    Prop :=
  AllGraduable taskID w ∨ ∀ d d', timestamp d ≤ timestamp d'

section Existence
variable {α : Type} [LinearOrder α] {timestamp : Dict → α} {taskID : String} {q : GraduateRequest}
  {qs : List GraduateRequest} {w w' : Indices} {faults : Faults} {seen es : Elastic} {d : Dict}

theorem graduateResult_searches {σ : Type} (prState : String) (result : Option Dict) :
    Makes (fun o => ∀ request, o ≠ .search request)
      (graduateResult taskID prState result : WorkerM σ Bool) := by
  have hensure : ∀ index mapping, Makes (fun o => ∀ request, o ≠ .search request)
      (ensureIndex index mapping : WorkerM σ Unit) := by
    intro index mapping
    apply ensureIndex_makes.mono
    rintro o ho request rfl
    exact ho
  have hdelete : Makes (fun o => ∀ request, o ≠ .search request)
      (deleteTaskMemory taskID : WorkerM σ Nat) := by
    apply Makes.tryCatch _ fun _ => Makes.pure 0
    apply Makes.bind (hensure _ _)
    exact fun _ => Makes.attempt (fun _ h => by cases h) _
  match result with
  | none => exact Makes.bind hdelete fun _ => Makes.pure false
  | some [] => exact Makes.bind hdelete fun _ => Makes.pure false
  | some (m :: rest) =>
    apply Makes.bind (Makes.ofExcept _)
    intro k
    apply Makes.bind _ fun _ => Makes.bind hdelete fun _ => Makes.pure true
    apply Makes.bind (hensure _ _)
    intro _
    apply Makes.bind (Makes.ask fun _ h => by cases h)
    exact fun time => Makes.attempt (fun _ h => by cases h) _

variable (timestamp) in
theorem exists_newest (hd : d ∈ seen taskMemoryIndex) (hsucceeded : succeededOf taskID d = true) :
    ∃ d', Newest timestamp taskID seen d' := by
  have hresults : ∀ {d}, d ∈ (seen taskMemoryIndex).filter (succeededOf taskID) ↔
      d ∈ seen taskMemoryIndex ∧ succeededOf taskID d = true := List.mem_filter
  cases hnewest : ((seen taskMemoryIndex).filter (succeededOf taskID)).argmax timestamp with
  | none =>
    rw [List.argmax_eq_none] at hnewest
    have hmem := hresults.mpr ⟨hd, hsucceeded⟩
    rw [hnewest] at hmem
    exact absurd hmem List.not_mem_nil
  | some d' =>
    obtain ⟨hd', hsucceeded'⟩ := hresults.mp (List.argmax_mem hnewest)
    exact ⟨d', hd', hsucceeded', fun _ hmem hs => List.le_of_mem_argmax (hresults.mpr ⟨hmem, hs⟩) hnewest⟩

/-- What `get_task_result` makes of the answer to its search. -/
def resultOf : Except Exc (List Hit) → Option Dict
  | .ok hits => hits.head?.map Hit.source
  | .error _ => none

/-- The search for the task's result may get this answer. -/
structure MayAnswer (timestamp : Dict → α) (taskID : String) (faults : Faults) (seen es : Elastic)
    (answer : Except Exc (List Hit)) : Prop where
  served : Elastic.Serve faults seen es (.search (taskResultRequest taskID)) answer es
  newest : ∀ h hits, answer = .ok (h :: hits) →
    ∀ d ∈ seen taskMemoryIndex, succeededOf taskID d = true → timestamp d ≤ timestamp h.source

theorem Newest.mayAnswer (h : Newest timestamp taskID seen d) (hsearch : faults.search = .works) :
    MayAnswer timestamp taskID faults seen es (.ok [⟨d, none⟩]) where
  served := by
    refine ⟨hsearch, ⟨Nat.le_refl 1, fun p hp => ?_⟩, rfl⟩
    rw [selects_taskResult] at hp
    cases hp
    refine ⟨fun hit hhit => ?_, fun _ h => by cases h⟩
    rw [List.mem_singleton.mp hhit]
    exact ⟨h.mem, h.succeeded⟩
  newest _ _ heq := by
    cases heq
    exact h.newest

variable (timestamp taskID) in
theorem exists_answer (faults : Faults) (seen es : Elastic) :
    ∃ answer, MayAnswer timestamp taskID faults seen es answer := by
  by_cases hsearch : faults.search = .works
  · by_cases hthere : ∃ d ∈ seen taskMemoryIndex, succeededOf taskID d = true
    · obtain ⟨d, hd, hsucceeded⟩ := hthere
      obtain ⟨d', hnewest⟩ := exists_newest timestamp hd hsucceeded
      exact ⟨_, hnewest.mayAnswer hsearch⟩
    · refine ⟨.ok [], ⟨hsearch, ⟨Nat.zero_le 1, fun p hp => ?_⟩, rfl⟩, fun h hits heq => by cases heq⟩
      rw [selects_taskResult] at hp
      cases hp
      refine ⟨fun h hh => absurd hh List.not_mem_nil, fun _ _ d hd => ?_⟩
      by_contra hsucceeded
      exact hthere ⟨d, hd, by simpa using hsucceeded⟩
  · exact ⟨.error unavailable, ⟨hsearch, rfl⟩, fun h hits heq => by cases heq⟩

/-- `get_task_result` finds its index and is given the answer to its search. -/
theorem getTaskResult_runs (taskID : String) (answer : Except Exc (List Hit)) :
    (getTaskResult taskID : WorkerM Unit (Option Dict)).Ends ()
      [⟨.indexExists taskMemoryIndex, .ok true⟩, ⟨.search (taskResultRequest taskID), answer⟩]
      (.ok (resultOf answer)) () := by
  apply Program.Runs.call (o := WorkerOp.indexExists taskMemoryIndex)
  apply Program.Runs.call (o := WorkerOp.search (taskResultRequest taskID))
  cases answer with
  | ok hits => exact .ret _
  | error e => exact .ret _

/-- A request of a task that the worker knows can be carried out with any answer that the search
may get, however GitHub answers. -/
theorem graduateTask_answered {statuses : String → Option TaskStatus} {status : TaskStatus}
    (hknown : statuses taskID = some status) {answer : Except Exc (List Hit)}
    (hanswer : MayAnswer timestamp taskID faults seen es answer) :
    ∃ tr r es', (graduateTask statuses taskID : WorkerM Unit _).Ends () tr r () ∧
      Threads (Elastic.Serve faults seen) es tr es' ∧ FindsNewest timestamp taskID seen tr ∧
      ∃ prState tr₃ b, (graduateResult taskID prState (resultOf answer) : WorkerM Unit Bool).Ends () tr₃ b () ∧
        Threads (Elastic.Serve faults seen) es tr₃ es' := by
  unfold graduateTask
  rw [hknown]
  obtain ⟨tr₁, r₁, hstate, hes₁⟩ : ∃ tr₁ r₁,
      (graduationState status.pullRequestURL : WorkerM Unit String).Ends () tr₁ r₁ () ∧
        Threads (Elastic.Serve faults seen) es tr₁ es := by
    have hthreads := threads_play (Elastic.respond faults seen) (Elastic.serve_respond faults seen)
      ((graduationState status.pullRequestURL : WorkerM Unit String).start ()) es
    have hruns := runs_play (Elastic.respond faults seen)
      ((graduationState status.pullRequestURL : WorkerM Unit String).start ()) es
    have hsame := Threads.onGitHub hthreads (graduationState_makes _ _ _ _ _ hruns).2
    rw [hsame] at hthreads
    exact ⟨_, _, hruns, hthreads⟩
  obtain ⟨prState, rfl⟩ := graduationState_returns _ _ _ _ _ hstate
  have hresult := getTaskResult_runs taskID answer
  have hthere : Elastic.Serve faults seen es (.indexExists taskMemoryIndex) (.ok true) es := rfl
  have hes₂ : Threads (Elastic.Serve faults seen) es [⟨.indexExists taskMemoryIndex, .ok true⟩,
      ⟨.search (taskResultRequest taskID), answer⟩] es := .cons hthere (.cons hanswer.served (.nil es))
  have hes₃ := threads_play (Elastic.respond faults seen) (Elastic.serve_respond faults seen)
    ((graduateResult taskID prState (resultOf answer) : WorkerM Unit Bool).start ()) es
  have hruns := runs_play (Elastic.respond faults seen)
    ((graduateResult taskID prState (resultOf answer) : WorkerM Unit Bool).start ()) es
  generalize play _ _ es = out at hes₃ hruns
  obtain ⟨tr₃, ⟨b, s⟩, es'⟩ := out
  have hgraduate := hresult.bind (f := graduateResult taskID prState) hruns
  have hall := hes₁.append (hes₂.append hes₃)
  have hfinds : FindsNewest timestamp taskID seen (tr₁ ++
      ([⟨.indexExists taskMemoryIndex, .ok true⟩, ⟨.search (taskResultRequest taskID), answer⟩] ++
        tr₃)) := by
    intro h hits hmem
    rcases List.mem_append.mp hmem with hmem | hmem
    · exact ((graduationState_makes _ _ _ _ _ hstate).2 _ hmem).elim
    · rcases List.mem_append.mp hmem with hmem | hmem
      · apply hanswer.newest h hits
        simp only [List.mem_cons, List.not_mem_nil, or_false, Sigma.mk.injEq, reduceCtorEq, false_and,
          heq_eq_eq, true_and, false_or] at hmem
        exact hmem.symm
      · exact absurd rfl ((graduateResult_searches _ _ _ _ _ _ hruns).2 _ hmem _)
  cases b with
  | ok b =>
    have hreply := hgraduate.bind (f := fun graduated => (pure (.ok {
      taskMemoryDeleted := graduated
      sharedMemoryUpdated := graduated
      prState := prState }) : WorkerM Unit (Except HTTPException GraduateResponse)))
      (Effect.Ends.pure _ ())
    rw [List.append_nil] at hreply
    exact ⟨_, _, es', hstate.bind hreply, hall, hfinds, prState, tr₃, .ok b, hruns, hes₃⟩
  | error e =>
    exact ⟨_, _, es', hstate.bind hgraduate.raise, hall, hfinds, prState, tr₃, .error e, hruns, hes₃⟩

/-- A request can be carried out, however its calls go and whatever its search sees. -/
theorem graduateTask_runs (timestamp : Dict → α) (taskID : String)
    (statuses : String → Option TaskStatus) (faults : Faults) (seen es : Elastic) :
    ∃ tr r es', (graduateTask statuses taskID : WorkerM Unit _).Ends () tr r () ∧
      Threads (Elastic.Serve faults seen) es tr es' ∧ FindsNewest timestamp taskID seen tr := by
  cases hknown : statuses taskID with
  | none =>
    unfold graduateTask
    rw [hknown]
    exact ⟨[], _, es, Effect.Ends.pure _ (), .nil es, fun h hits hmem => by cases hmem⟩
  | some status =>
    obtain ⟨answer, hanswer⟩ := exists_answer timestamp taskID faults seen es
    obtain ⟨tr, r, es', hend, hes, hfinds, _⟩ := graduateTask_answered hknown hanswer
    exact ⟨tr, r, es', hend, hes, hfinds⟩

/-! ## What becomes of a result -/

section Ends
variable {prState : String} {tr : List (Event WorkerOp.Resp)} {r : Except Exc Bool} {es' : Elastic}

theorem GraduationEnds.stores (hgraduable : Graduable d)
    (h : GraduationEnds taskID prState d faults es tr r es') (hstore : faults.store ≠ .refused) :
    (es sharedMemoryIndex).length < (es' sharedMemoryIndex).length := by
  have hadd : ∀ doc, (es sharedMemoryIndex).length <
      (es.add sharedMemoryIndex doc sharedMemoryIndex).length := by
    intro doc
    rw [add_shared_shared, List.length_append, List.length_singleton]
    exact Nat.lt_succ_self _
  cases h with
  | unfit he =>
    obtain ⟨k, hk⟩ := (graduable_iff prState).mp hgraduable
    rw [hk] at he
    cases he
  | refused _ hrefused => exact absurd hrefused hstore
  | lost _ _ => exact hadd _
  | stored _ _ _ _ hremoves =>
    rw [hremoves.shared]
    exact hadd _

/-- A deletion that deletes nothing leaves everything where it is, and so does one that is not
come to. -/
theorem GraduationEnds.keeps (h : GraduationEnds taskID prState d faults es tr r es')
    (hkept : Graduable d → faults.store = .works → faults.delete = .refused) :
    ∀ d ∈ es taskMemoryIndex, d ∈ es' taskMemoryIndex := by
  intro d' hd'
  cases h with
  | unfit _ => exact hd'
  | refused _ _ => exact hd'
  | lost _ _ =>
    rw [add_shared_task]
    exact hd'
  | stored hk hworks _ _ hremoves =>
    rw [hremoves.mem_iff, add_shared_task, hkept ((graduable_iff prState).mpr ⟨_, hk⟩) hworks]
    exact ⟨hd', fun _ => rfl⟩

end Ends

/-! ## One request that stores or leaves the documents where they are -/

/-- A deletion for a request, which deletes nothing if it may. -/
theorem exists_deletion (taskID : String) (q : GraduateRequest) (w : Indices) : ∃ deletion : Deletion,
    (q.deletes = true → deletion.Full taskID w.now) ∧ (q.deletes ≠ true → deletion = .refused) := by
  by_cases hdeletes : q.deletes = true
  · exact ⟨.works, fun _ _ _ _ => rfl, fun h => absurd hdeletes h⟩
  · exact ⟨.refused, fun h => absurd h hdeletes, fun _ => rfl⟩

variable (timestamp taskID) in
/-- A request whose search sees what is there. -/
theorem graduation_now (deletion : Deletion) (hfull : q.deletes = true → deletion.Full taskID w.now) :
    ∃ tr r es', (graduateTask q.statuses taskID : WorkerM Unit _).Ends () tr r () ∧
      Threads (Elastic.Serve ⟨q.search, q.store, deletion⟩ w.now) w.now tr es' ∧
      Graduation timestamp taskID q w (w.next es') := by
  obtain ⟨tr, r, es', hend, hes, hnewest⟩ :=
    graduateTask_runs timestamp taskID q.statuses ⟨q.search, q.store, deletion⟩ w.now w.now
  exact ⟨tr, r, es', hend, hes, w.now, deletion, tr, r, es', w.shows_now, fun _ => rfl, hfull, hend, hes,
    hnewest, rfl⟩

/-- The search of the request may find this document. -/
def MayComeUp (timestamp : Dict → α) (taskID : String) (w : Indices) (q : GraduateRequest) (d : Dict) :
    Prop :=
  ∃ seen, w.Shows seen ∧ (q.current = true → seen = w.now) ∧ Newest timestamp taskID seen d

/-- A request whose search finds this document. -/
theorem graduation_finding (hknown : q.statuses taskID ≠ none) (hsearch : q.search = .works)
    (hfound : MayComeUp timestamp taskID w q d) {deletion : Deletion}
    (hfull : q.deletes = true → deletion.Full taskID w.now) :
    ∃ prState tr r es', Graduation timestamp taskID q w (w.next es') ∧
      GraduationEnds taskID prState d ⟨q.search, q.store, deletion⟩ w.now tr r es' := by
  obtain ⟨seen, hshows, hcurrent, hnewest⟩ := hfound
  obtain ⟨status, hstatus⟩ := Option.ne_none_iff_exists'.mp hknown
  have hanswer : MayAnswer timestamp taskID ⟨q.search, q.store, deletion⟩ seen w.now (.ok [⟨d, none⟩]) :=
    hnewest.mayAnswer hsearch
  obtain ⟨tr, r, es', hend, hes, hfinds, prState, tr₃, b, hresult, hes₃⟩ :=
    graduateTask_answered hstatus hanswer
  exact ⟨prState, tr₃, b, es', ⟨seen, deletion, tr, r, es', hshows, hcurrent, hfull, hend, hes, hfinds, rfl⟩,
    graduateResult_ends (ne_nil_of_succeededOf hnewest.succeeded) hresult hes₃⟩

theorem GraduateRequest.MayFind.comesUp (h : q.MayFind taskID w d)
    (hnewest : q.current = true → Newest timestamp taskID w.now d) : MayComeUp timestamp taskID w q d := by
  by_cases hcurrent : q.current = true
  · exact ⟨w.now, w.shows_now, fun _ => rfl, hnewest hcurrent⟩
  · -- a search that sees the document, and nothing else
    have honly : ∀ d', d' ∈ Elastic.set (fun _ => []) taskMemoryIndex [d] taskMemoryIndex → d' = d :=
      fun d' hd' => List.mem_singleton.mp hd'
    refine ⟨Elastic.set (fun _ => []) taskMemoryIndex [d], fun index x hx => ?_,
      fun h => absurd h hcurrent, List.mem_singleton_self d, h.succeeded, fun d' hd' _ => ?_⟩
    · by_cases hindex : index = taskMemoryIndex
      · subst hindex
        rw [honly x hx]
        exact h.held
      · rw [Elastic.set_other _ _ hindex] at hx
        exact absurd hx List.not_mem_nil
    · rw [honly d' hd']

theorem GraduateRequest.MayFind.newest_of_tied (h : q.MayFind taskID w d)
    (htied : ∀ d d', timestamp d ≤ timestamp d') (hcurrent : q.current = true) :
    Newest timestamp taskID w.now d :=
  ⟨h.there hcurrent, h.succeeded, fun d' _ _ => htied d' d⟩

/-- If the request may find a result that a document can be made of, one comes up. -/
theorem GraduateRequest.MayFind.graduable_comesUp (h : q.MayFind taskID w d) (hgraduable : Graduable d)
    (hany : Indifferent timestamp taskID w) : ∃ d', MayComeUp timestamp taskID w q d' ∧ Graduable d' := by
  rcases hany with hall | htied
  · by_cases hcurrent : q.current = true
    · obtain ⟨d', hnewest⟩ := exists_newest timestamp (h.there hcurrent) h.succeeded
      exact ⟨d', ⟨w.now, w.shows_now, fun _ => rfl, hnewest⟩, hall d' (.now hnewest.mem) hnewest.succeeded⟩
    · exact ⟨d, h.comesUp fun h => absurd h hcurrent, hgraduable⟩
  · exact ⟨d, h.comesUp (h.newest_of_tied htied), hgraduable⟩

/-- A request that may store can store, and if it does not clear the documents of the task it can
leave them where they are. -/
theorem graduation_storing (hany : Indifferent timestamp taskID w) (hmay : q.MayStore taskID w) :
    ∃ w', Graduation timestamp taskID q w w' ∧
      (w.now sharedMemoryIndex).length < (w'.now sharedMemoryIndex).length ∧
      (¬ q.Clears taskID → ∀ d ∈ w.now taskMemoryIndex, d ∈ w'.now taskMemoryIndex) := by
  obtain ⟨⟨hknown, hsearch, hstore⟩, d, hfind, hgraduable⟩ := hmay
  obtain ⟨d', hfound, hgraduable'⟩ := hfind.graduable_comesUp hgraduable hany
  obtain ⟨deletion, hfull, hrefused⟩ := exists_deletion taskID q w
  obtain ⟨prState, tr, r, es', hgraduation, hends⟩ := graduation_finding hknown hsearch hfound hfull
  refine ⟨w.next es', hgraduation, hends.stores hgraduable' hstore, fun hkept => hends.keeps ?_⟩
  exact fun _ hworks => hrefused fun hdeletes => hkept ⟨hknown, hdeletes, fun _ => hworks⟩

/-- A request that does not clear the documents of the task can leave them where they are. -/
theorem graduation_sparing (hthere : ∃ d ∈ w.now taskMemoryIndex, succeededOf taskID d = true)
    (hkept : ¬ q.Clears taskID) : ∃ w', Graduation timestamp taskID q w w' ∧
      ∀ d ∈ w.now taskMemoryIndex, d ∈ w'.now taskMemoryIndex := by
  obtain ⟨deletion, hfull, hrefused⟩ := exists_deletion taskID q w
  obtain ⟨tr, r, es', hend, hes, hgraduation⟩ := graduation_now timestamp taskID (q := q) deletion hfull
  refine ⟨w.next es', hgraduation, ?_⟩
  change ∀ d ∈ w.now taskMemoryIndex, d ∈ es' taskMemoryIndex
  rcases graduateTask_ends hend hes with ⟨_, rfl, _⟩ | ⟨hknown, _, _, _, _, _, hshared, hes₂, _⟩
  · exact fun d hd => hd
  · cases graduateToShared_ends hshared hes₂ with
    | nothing hunfound _ hremoves =>
      have hsearch : q.search ≠ .works := fun hsearch => hunfound ⟨hsearch, hthere⟩
      have hdeletion : deletion = .refused := hrefused fun hdeletes =>
        hkept ⟨hknown, hdeletes, fun hworks => absurd hworks hsearch⟩
      intro d hd
      refine hremoves.mem_iff.mpr ⟨hd, fun _ => ?_⟩
      change deletion.spares d = true
      rw [hdeletion]
      rfl
    | result _ _ _ _ hends =>
      exact hends.keeps fun _ hworks => hrefused fun hdeletes => hkept ⟨hknown, hdeletes, fun _ => hworks⟩

theorem graduation_keeping (hany : Indifferent timestamp taskID w)
    (hthere : ∃ d ∈ w.now taskMemoryIndex, succeededOf taskID d = true) (hspares : q.Spares taskID w) :
    ∃ w', Graduation timestamp taskID q w w' ∧
      ∀ d ∈ w.now taskMemoryIndex, d ∈ w'.now taskMemoryIndex := by
  by_cases hclears : q.Clears taskID
  · -- the search finds a result that no document can be made of
    obtain ⟨hsearch, d, hfind, hnot⟩ := hspares hclears
    rcases hany with hall | htied
    · exact absurd (hall d hfind.held hfind.succeeded) hnot
    · obtain ⟨deletion, hfull, _⟩ := exists_deletion taskID q w
      obtain ⟨prState, tr, r, es', hgraduation, hends⟩ :=
        graduation_finding hclears.1 hsearch (hfind.comesUp (hfind.newest_of_tied htied)) hfull
      exact ⟨w.next es', hgraduation, hends.keeps fun hgraduable => absurd hgraduable hnot⟩
  · exact graduation_sparing hthere hclears

/-! ## Requests that store twice -/

/-- What holds of the indices before and after requests. -/
structure Follows (taskID : String) (w w' : Indices) : Prop where
  grows : (w.now sharedMemoryIndex).length ≤ (w'.now sharedMemoryIndex).length
  held : ∀ index d, w.Held index d → w'.Held index d
  held_before : ∀ d, w'.Held taskMemoryIndex d → w.Held taskMemoryIndex d

theorem Graduation.follows (h : Graduation timestamp taskID q w w') : Follows taskID w w' :=
  ⟨h.grows, fun _ _ => h.held, fun _ => h.held_before⟩

theorem Follows.refl (w : Indices) : Follows taskID w w :=
  ⟨Nat.le_refl _, fun _ _ hd => hd, fun _ hd => hd⟩

theorem Follows.trans {w'' : Indices} (h : Follows taskID w w') (h' : Follows taskID w' w'') :
    Follows taskID w w'' where
  grows := Nat.le_trans h.grows h'.grows
  held index d hd := h'.held index d (h.held index d hd)
  held_before d hd := h.held_before d (h'.held_before d hd)

theorem Graduations.follows (h : Graduations timestamp taskID w qs w') : Follows taskID w w' := by
  induction h with
  | nil w => exact .refl w
  | cons hfirst _ ih => exact hfirst.follows.trans ih

theorem Follows.indifferent (h : Follows taskID w w') (hany : Indifferent timestamp taskID w) :
    Indifferent timestamp taskID w' :=
  hany.imp_left fun hall d hd hsucceeded => hall d (h.held_before d hd) hsucceeded

section Later
variable (hfollows : Follows taskID w w')
  (hthere : q.current = true → ∀ d ∈ w.now taskMemoryIndex, d ∈ w'.now taskMemoryIndex)
include hfollows hthere

theorem GraduateRequest.MayFind.later (h : q.MayFind taskID w d) : q.MayFind taskID w' d where
  held := hfollows.held _ d h.held
  there hcurrent := hthere hcurrent d (h.there hcurrent)
  succeeded := h.succeeded

theorem GraduateRequest.MayStore.later (h : q.MayStore taskID w) : q.MayStore taskID w' := by
  obtain ⟨hstores, d, hfind, hgraduable⟩ := h
  exact ⟨hstores, d, hfind.later hfollows hthere, hgraduable⟩

theorem GraduateRequest.Spares.later (h : q.Spares taskID w) : q.Spares taskID w' := by
  intro hclears
  obtain ⟨hsearch, d, hfind, hnot⟩ := h hclears
  exact ⟨hsearch, d, hfind.later hfollows hthere, hnot⟩

end Later

theorem Graduations.append {w₁ : Indices} {qs' : List GraduateRequest}
    (h : Graduations timestamp taskID w qs w₁) (h' : Graduations timestamp taskID w₁ qs' w') :
    Graduations timestamp taskID w (qs ++ qs') w' := by
  induction h with
  | nil w => exact h'
  | cons hfirst _ ih => exact .cons hfirst (ih h')

variable (timestamp taskID) in
theorem graduations_exist (qs : List GraduateRequest) (w : Indices) :
    ∃ w', Graduations timestamp taskID w qs w' := by
  induction qs generalizing w with
  | nil => exact ⟨w, .nil w⟩
  | cons q qs ih =>
    obtain ⟨_, _, es', _, _, hfirst⟩ :=
      graduation_now timestamp taskID (q := q) (w := w) .works fun _ _ _ _ => rfl
    obtain ⟨w', hrest⟩ := ih (w.next es')
    exact ⟨w', .cons hfirst hrest⟩

theorem graduations_keeping (hany : Indifferent timestamp taskID w)
    (hthere : ∃ d ∈ w.now taskMemoryIndex, succeededOf taskID d = true)
    (hspares : ∀ q ∈ qs, q.Spares taskID w) : ∃ w', Graduations timestamp taskID w qs w' ∧
      ∀ d ∈ w.now taskMemoryIndex, d ∈ w'.now taskMemoryIndex := by
  induction qs generalizing w with
  | nil => exact ⟨w, .nil w, fun d hd => hd⟩
  | cons q qs ih =>
    obtain ⟨hq, hqs⟩ := List.forall_mem_cons.mp hspares
    obtain ⟨w₁, hfirst, hstays⟩ := graduation_keeping hany hthere hq
    obtain ⟨d, hd, hsucceeded⟩ := hthere
    obtain ⟨w', hrest, hstays'⟩ := ih (hfirst.follows.indifferent hany) ⟨d, hstays d hd, hsucceeded⟩
      fun p hp => (hqs p hp).later hfirst.follows fun _ => hstays
    exact ⟨w', .cons hfirst hrest, fun d hd => hstays' d (hstays d hd)⟩

theorem GraduateRequest.MayStore.there (h : q.MayStore taskID w) (hcurrent : q.current = true) :
    ∃ d ∈ w.now taskMemoryIndex, succeededOf taskID d = true := by
  obtain ⟨_, d, hfind, _⟩ := h
  exact ⟨d, hfind.there hcurrent, hfind.succeeded⟩

/-- Two requests that may store, one after the other, store. -/
theorem graduations_storing {w₁ w₂ w₃ : Indices} {before between after : List GraduateRequest}
    {first second : GraduateRequest} (hrun₁ : Graduations timestamp taskID w before w₁)
    (hrun₂ : Graduation timestamp taskID first w₁ w₂)
    (hstored : (w₁.now sharedMemoryIndex).length < (w₂.now sharedMemoryIndex).length)
    (hrun₃ : Graduations timestamp taskID w₂ between w₃) (hany : Indifferent timestamp taskID w₃)
    (hsecond : second.MayStore taskID w₃) :
    ∃ w', Graduations timestamp taskID w (before ++ first :: (between ++ second :: after)) w' ∧
      (w.now sharedMemoryIndex).length + 1 < (w'.now sharedMemoryIndex).length := by
  obtain ⟨w₄, hrun₄, hstored', _⟩ := graduation_storing hany hsecond
  obtain ⟨w₅, hrun₅⟩ := graduations_exist timestamp taskID after w₄
  refine ⟨w₅, hrun₁.append (.cons hrun₂ (hrun₃.append (.cons hrun₄ hrun₅))), ?_⟩
  have hgrows₁ := hrun₁.follows.grows
  have hgrows₃ := hrun₃.follows.grows
  have hgrows₅ := hrun₅.follows.grows
  omega

theorem graduations_twice (hany : Indifferent timestamp taskID w) (htwice : StoresTwice taskID w qs) :
    ∃ w', Graduations timestamp taskID w qs w' ∧
      (w.now sharedMemoryIndex).length + 1 < (w'.now sharedMemoryIndex).length := by
  obtain ⟨before, first, between, second, after, rfl, hfirst, hsecond, hearly, hlate⟩ := htwice
  by_cases hcurrent : second.current = true
  · -- the documents stay where they are until the second comes
    obtain ⟨hspares, hclears⟩ := hlate hcurrent
    obtain ⟨hkept, hbetween⟩ := List.forall_mem_cons.mp hclears
    obtain ⟨w₁, hrun₁, hstays₁⟩ := graduations_keeping hany (hsecond.there hcurrent) hspares
    have hany₁ := hrun₁.follows.indifferent hany
    have hsecond₁ := hsecond.later hrun₁.follows fun _ => hstays₁
    obtain ⟨w₂, hrun₂, hstored, hstays₂⟩ := graduation_storing hany₁
      (hfirst.later hrun₁.follows fun _ => hstays₁)
    have hany₂ := hrun₂.follows.indifferent hany₁
    have hsecond₂ := hsecond₁.later hrun₂.follows fun _ => hstays₂ hkept
    obtain ⟨w₃, hrun₃, hstays₃⟩ := graduations_keeping hany₂ (hsecond₂.there hcurrent)
      fun p hp hclears => absurd hclears (hbetween p hp)
    exact graduations_storing hrun₁ hrun₂ hstored hrun₃ (hrun₃.follows.indifferent hany₂)
      (hsecond₂.later hrun₃.follows fun _ => hstays₃)
  · obtain ⟨w₁, hrun₁, hfirst₁⟩ : ∃ w₁, Graduations timestamp taskID w before w₁ ∧
        first.MayStore taskID w₁ := by
      by_cases hcurrent' : first.current = true
      · obtain ⟨w₁, hrun₁, hstays₁⟩ := graduations_keeping hany (hfirst.there hcurrent') (hearly hcurrent')
        exact ⟨w₁, hrun₁, hfirst.later hrun₁.follows fun _ => hstays₁⟩
      · obtain ⟨w₁, hrun₁⟩ := graduations_exist timestamp taskID before w
        exact ⟨w₁, hrun₁, hfirst.later hrun₁.follows fun h => absurd h hcurrent'⟩
    have hany₁ := hrun₁.follows.indifferent hany
    obtain ⟨w₂, hrun₂, hstored, _⟩ := graduation_storing hany₁ hfirst₁
    obtain ⟨w₃, hrun₃⟩ := graduations_exist timestamp taskID between w₂
    have hlater : second.MayStore taskID w₃ :=
      hsecond.later (hrun₁.follows.trans (hrun₂.follows.trans hrun₃.follows)) fun h => absurd h hcurrent
    exact graduations_storing hrun₁ hrun₂ hstored hrun₃
      (hrun₃.follows.indifferent (hrun₂.follows.indifferent hany₁)) hlater

theorem StoresTwice.allGraduable (h : StoresTwice taskID w qs) (huniform : Uniform taskID w) :
    AllGraduable taskID w := by
  obtain ⟨_, _, _, _, _, _, ⟨_, d, hfind, hgraduable⟩, _⟩ := h
  exact huniform ⟨d, hfind.held, hfind.succeeded, hgraduable⟩

end Existence

/-- The requests add at most one document, in whatever way they are carried out. -/
def GraduatesOnce {α : Type} [LinearOrder α] (timestamp : Dict → α) (taskID : String)
    (qs : List GraduateRequest) (w : Indices) : Prop :=
  ∀ w', Graduations timestamp taskID w qs w' →
    (w'.now sharedMemoryIndex).length ≤ (w.now sharedMemoryIndex).length + 1

theorem graduatesOnce_of_not {α : Type} [LinearOrder α] {timestamp : Dict → α} {taskID : String}
    {qs : List GraduateRequest} {w : Indices} (h : ¬ StoresTwice taskID w qs) :
    GraduatesOnce timestamp taskID qs w := by
  intro w' hrun
  by_contra hmore
  exact h (hrun.stores_twice (Nat.not_le.mp hmore))

theorem GraduatesOnce.not_storesTwice {α : Type} [LinearOrder α] {timestamp : Dict → α}
    {taskID : String} {qs : List GraduateRequest} {w : Indices}
    (h : GraduatesOnce timestamp taskID qs w) (hany : Indifferent timestamp taskID w) :
    ¬ StoresTwice taskID w qs := by
  intro htwice
  obtain ⟨w', hrun, hmore⟩ := graduations_twice hany htwice
  exact absurd (h w' hrun) (Nat.not_le.mpr hmore)

/-- The requests add at most one document, however Elasticsearch orders the documents of the task,
exactly if no two of them may store. Where a document can be made of all Succeeded documents of the
task, as of those that runs write, or of none, this is so in every single order. -/
theorem graduates_once_iff {α : Type} [LinearOrder α] (timestamp : Dict → α) (taskID : String)
    (qs : List GraduateRequest) (w : Indices) :
    ((∀ order : Dict → α, GraduatesOnce order taskID qs w) ↔ ¬ StoresTwice taskID w qs) ∧
      (Uniform taskID w → (GraduatesOnce timestamp taskID qs w ↔ ¬ StoresTwice taskID w qs)) := by
  constructor
  · refine ⟨fun h => ?_, fun h _ => graduatesOnce_of_not h⟩
    -- an order in which all documents are of one age
    have htied : Indifferent (fun _ => timestamp []) taskID w := Or.inr fun _ _ => le_refl _
    exact (h _).not_storesTwice htied
  · intro huniform
    refine ⟨fun h htwice => ?_, graduatesOnce_of_not⟩
    have hall := htwice.allGraduable huniform
    exact h.not_storesTwice (Or.inl hall) htwice

/-- A worker with every task, on which every call works. -/
def healthy : GraduateRequest where
  statuses taskID := some { taskID := taskID, phase := .succeeded }
  search := .works
  current := true
  store := .works
  deletes := true

/-- Its deletion is not carried out in full. -/
def undeleting : GraduateRequest := { healthy with deletes := false }

/-- It comes before the index has been refreshed. -/
def hasty : GraduateRequest := { healthy with current := false }

/-- The requests can make two documents of what the demo holds. -/
def Duplicates (qs : List GraduateRequest) : Prop :=
  ∃ w', Graduations (fun _ => 0) "t" ⟨demoElastic, []⟩ qs w' ∧
    (demoElastic sharedMemoryIndex).length + 1 < (w'.now sharedMemoryIndex).length

/-- The operator asks twice, and there are two documents for one task: the first deletion is not
carried out in full, or does not show yet when the second request searches. -/
theorem graduated_twice : Duplicates [undeleting, undeleting] ∧ Duplicates [healthy, hasty] := by
  have hresult : [("task_id", .str "t"), ("phase", .str "Succeeded"), ("prompt", .str "do it"),
      ("output", .str "done")] ∈ demoElastic taskMemoryIndex := List.mem_singleton.mpr rfl
  have hmay : ∀ q : GraduateRequest, q.Stores "t" → q.MayStore "t" ⟨demoElastic, []⟩ :=
    fun q hstores => ⟨hstores, _, ⟨.now hresult, fun _ => hresult, by decide⟩, _, rfl⟩
  have hany : Indifferent (fun _ => 0) "t" ⟨demoElastic, []⟩ := Or.inr fun _ _ => le_refl _
  constructor
  · have hstores : undeleting.Stores "t" := ⟨Option.some_ne_none _, rfl, by decide⟩
    apply graduations_twice hany
    refine ⟨[], undeleting, [], undeleting, [], rfl, hmay _ hstores, hmay _ hstores,
      fun _ q hq => absurd hq List.not_mem_nil, fun _ => ⟨fun q hq => absurd hq List.not_mem_nil, ?_⟩⟩
    intro q hq hclears
    rw [List.mem_singleton.mp hq] at hclears
    cases hclears.2.1
  · apply graduations_twice hany
    refine ⟨[], healthy, [], hasty, [], rfl, hmay _ ⟨Option.some_ne_none _, rfl, by decide⟩,
      hmay _ ⟨Option.some_ne_none _, rfl, by decide⟩, fun _ q hq => absurd hq List.not_mem_nil, ?_⟩
    intro hcurrent
    cases hcurrent

end BulletFarm.Worker
