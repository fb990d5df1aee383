import BulletFarm.Interaction.Observer
import BulletFarm.Worker.Flush

/-!
# Runs while Elasticsearch is in trouble

Git, GitHub and the agent are fixed, the agent with the searches of its own that it
makes. Elasticsearch answers what it likes, and raises when it likes, as long as no
search has hits. Nobody outside can tell two such runs apart.
-/

namespace BulletFarm.Worker

open Interaction Python

set_option autoImplicit false

variable {W α β : Type}

/-! ## What is fixed -/

/-- A call that is not to Elasticsearch, to the clock or to the source of jitter. -/
def outward : WorkerOp → Bool
  | .now | .sleep _ | .randint _ _ | .indexExists _ | .createIndex _ _ | .indexDocument _ _
  | .search _ | .deleteByQuery _ _ | .bulk _ => false
  | _ => true

/-- The arguments of the tool `search_shared_knowledge`. -/
structure ToolSearch where
  queryText : String
  skills : Option (List String)
  limit : Int

/-- The agent at work, as far as its searches of the memory store decide how it goes on. -/
abbrev Session (α : Type) : Type := Program ToolSearch (fun _ => Except Exc (List Found)) α

/-- The session with its searches carried out. -/
def carryOut : Session α → Program WorkerOp WorkerOp.Resp α
  | .ret a => .ret a
  | .call q next =>
    (searchSharedKnowledge q.queryText q.skills q.limit : WorkerM Unit (List Found)).start () >>=
      fun found => carryOut (next found.1)

/-- A tool start without its readings of the clock. -/
def AgentEvent.untimed : AgentEvent → AgentEvent
  | .toolStart name _ _ => .toolStart name 0 0
  | event => event

def AgentStream.untimed (stream : AgentStream) : AgentStream :=
  ⟨stream.events.map AgentEvent.untimed, stream.error⟩

/-- Everything around the worker but Elasticsearch and the clock. -/
structure Outside (W : Type) where
  respond : W → (o : WorkerOp) → o.Resp × W
  stream : W → String → List String → Session (AgentStream × W)
  invoke : W → String → List String → Session (Except Exc (List Message) × W)

/-- A fixed answer, or one that `elastic` allows. -/
def Outside.Replies (out : Outside W) (elastic : Event WorkerOp.Resp → Prop) (w : W)
    (o : WorkerOp) (r : o.Resp) (w' : W) : Prop :=
  if outward o = true then (r, w') = out.respond w o else w' = w ∧ elastic ⟨o, r⟩

/-- The answers to the agent's runs are fixed up to what its own searches are answered. -/
def Outside.Answers (out : Outside W) (elastic : Event WorkerOp.Resp → Prop) (w : W) :
    (o : WorkerOp) → o.Resp → W → Prop
  | .streamEvents prompt tools, r, w' => ∃ tr stream,
      (carryOut (out.stream w prompt tools)).Runs tr (stream, w') ∧ (∀ e ∈ tr, elastic e) ∧
        r.untimed = stream.untimed
  | .invoke prompt tools, r, w' => ∃ tr,
      (carryOut (out.invoke w prompt tools)).Runs tr (r, w') ∧ ∀ e ∈ tr, elastic e
  | o, r, w' => out.Replies elastic w o r w'

/-- No search has hits; any call to Elasticsearch may raise. -/
def Hitless : Event WorkerOp.Resp → Prop
  | ⟨.search _, .ok hits⟩ => hits = []
  | _ => True

/-- No call to Elasticsearch raises, and no search has hits. -/
def Healthy : Event WorkerOp.Resp → Prop
  | ⟨.search _, answer⟩ => answer = .ok []
  | ⟨.indexExists _, answer⟩ => ∃ there, answer = .ok there
  | ⟨.createIndex _ _, answer⟩ => answer = .ok ()
  | ⟨.indexDocument _ _, answer⟩ => ∃ result, answer = .ok result
  | ⟨.deleteByQuery _ _, answer⟩ => ∃ deleted, answer = .ok deleted
  | ⟨.bulk _, answer⟩ => ∃ result, answer = .ok result
  | _ => True

theorem Healthy.hitless {e : Event WorkerOp.Resp} (h : Healthy e) : Hitless e := by
  obtain ⟨o, r⟩ := e
  cases o with
  | search request =>
    rw [show r = .ok [] from h]
    rfl
  | _ => trivial

theorem Outside.Replies.mono {out : Outside W} {p q : Event WorkerOp.Resp → Prop}
    (hpq : ∀ e, p e → q e) {w w' : W} {o : WorkerOp} {r : o.Resp} (h : out.Replies p w o r w') :
    out.Replies q w o r w' := by
  unfold Replies at h ⊢
  split at h
  · next ho => rwa [if_pos ho]
  · next ho =>
    rw [if_neg ho]
    exact ⟨h.1, hpq _ h.2⟩

theorem Outside.Answers.mono {out : Outside W} {p q : Event WorkerOp.Resp → Prop}
    (hpq : ∀ e, p e → q e) {w w' : W} {o : WorkerOp} {r : o.Resp} (h : out.Answers p w o r w') :
    out.Answers q w o r w' := by
  cases o with
  | streamEvents prompt tools =>
    obtain ⟨tr, stream, hrun, htr, hr⟩ := h
    exact ⟨tr, stream, hrun, fun e he => hpq e (htr e he), hr⟩
  | invoke prompt tools =>
    obtain ⟨tr, hrun, htr⟩ := h
    exact ⟨tr, hrun, fun e he => hpq e (htr e he)⟩
  | _ => exact Replies.mono hpq h

/-! ## Searches without hits -/

section Searches
variable {σ : Type} {s s' : σ} {tr : List (Event WorkerOp.Resp)}

/-- What a block gives whose searches have no hits, if it gives anything. -/
def Gives (a : α) (_ : σ) (tr : List (Event WorkerOp.Resp)) (r : Except Exc α) (_ : σ) : Prop :=
  (∀ e ∈ tr, Hitless e) → ∀ b, r = .ok b → b = a

theorem Gives.pure (a : α) : Effect.Meets (Gives a) (pure a : WorkerM σ α) := by
  intro s tr r s' h _ b hb
  rw [(Effect.ends_pure h).2.1] at hb
  cases hb
  rfl

theorem Gives.bind {a : β} {m : WorkerM σ α} {f : α → WorkerM σ β}
    (hf : ∀ x, Effect.Meets (Gives a) (f x)) : Effect.Meets (Gives a) (m >>= f) := by
  intro s tr r s' h htr b hb
  rcases Effect.ends_bind h with ⟨tr₁, tr₂, x, s₁, rfl, _, h₂⟩ | ⟨exc, rfl, _⟩
  · exact hf x _ _ _ _ h₂ (fun e he => htr e (List.mem_append_right _ he)) b hb
  · cases hb

theorem Gives.tryCatch {a : α} {m : WorkerM σ α} {f : Exc → WorkerM σ α}
    (hm : Effect.Meets (Gives a) m) (hf : ∀ exc, Effect.Meets (Gives a) (f exc)) :
    Effect.Meets (Gives a) (tryCatch m f) := by
  intro s tr r s' h htr
  rcases Effect.ends_tryCatch h with ⟨x, rfl, h₁⟩ | ⟨tr₁, tr₂, exc, s₁, rfl, _, h₂⟩
  · exact hm _ _ _ _ h₁ htr
  · exact hf exc _ _ _ _ h₂ fun e he => htr e (List.mem_append_right _ he)

/-- What a search gives goes into what follows it. -/
theorem Gives.search {a : β} {m : WorkerM σ α} {x : α} {f : α → WorkerM σ β}
    (hm : Effect.Meets (Gives x) m) (hf : Effect.Meets (Gives a) (f x)) :
    Effect.Meets (Gives a) (m >>= f) := by
  intro s tr r s' h htr b hb
  rcases Effect.ends_bind h with ⟨tr₁, tr₂, y, s₁, rfl, h₁, h₂⟩ | ⟨exc, rfl, _⟩
  · have hy := hm _ _ _ _ h₁ (fun e he => htr e (List.mem_append_left _ he)) y rfl
    subst hy
    exact hf _ _ _ _ h₂ (fun e he => htr e (List.mem_append_right _ he)) b hb
  · cases hb

theorem searchIf_gives (enabled : Bool) (index : String) (query : Json.Value) (limit : Int) :
    Effect.Meets (Gives []) (searchIf enabled index query limit : WorkerM σ (List Hit)) := by
  apply Effect.Meets.ite _ (Gives.pure [])
  intro s tr r s' h htr hits hr
  obtain ⟨answer, rfl, hanswer, rfl⟩ := Effect.ends_attempt h
  have hhits := htr _ List.mem_cons_self
  rw [show answer = .ok hits from hanswer.symm.trans hr] at hhits
  exact hhits

theorem executeQuery_gives (taskQuery sharedQuery : Json.Value) (limit : Int) (task shared : Bool) :
    Effect.Meets (Gives [])
      (executeQuery taskQuery sharedQuery limit task shared : WorkerM σ (List Found)) := by
  apply Gives.bind
  intro _
  apply Gives.search (searchIf_gives _ _ _ _)
  apply Gives.search (searchIf_gives _ _ _ _)
  have hranked : (rankResults [] [] limit : WorkerM σ (List Found)) = pure [] := by
    simp [rankResults, mergeAndRankResults]
  rw [hranked]
  exact Gives.pure []

theorem unifiedSearch_gives (queryText : String) (skills : Option (List String)) (limit : Int)
    (task shared : Bool) : Effect.Meets (Gives [])
      (unifiedSearch queryText skills limit task shared : WorkerM σ (List Found)) := by
  have hnone : Effect.Meets (Gives []) (pure [] : WorkerM σ (List Found)) := Gives.pure []
  apply Effect.Meets.ite hnone
  apply Gives.tryCatch (executeQuery_gives _ _ _ _ _)
  intro exc
  apply Effect.Meets.ite hnone
  apply Gives.tryCatch
  · apply Gives.bind
    intro delay
    apply Gives.bind
    exact fun _ => executeQuery_gives _ _ _ _ _
  · intro _
    exact Gives.tryCatch (executeQuery_gives _ _ _ _ _) fun _ => hnone

theorem unifiedSearch_returns (queryText : String) (skills : Option (List String)) (limit : Int)
    (task shared : Bool) : Effect.Returns
      (unifiedSearch queryText skills limit task shared : WorkerM σ (List Found)) := by
  apply Effect.Returns.ite (Effect.Returns.pure _)
  apply Effect.Returns.tryCatch
  intro exc
  apply Effect.Returns.ite (Effect.Returns.pure _)
  apply Effect.Returns.tryCatch
  intro _
  exact Effect.Returns.tryCatch fun _ => Effect.Returns.pure _

theorem unifiedSearch_ends {queryText : String} {skills : Option (List String)} {limit : Int}
    {task shared : Bool} {r : Except Exc (List Found)}
    (h : (unifiedSearch queryText skills limit task shared : WorkerM σ (List Found)).Ends s tr r s')
    (htr : ∀ e ∈ tr, Hitless e) : r = .ok [] := by
  obtain ⟨found, rfl⟩ := unifiedSearch_returns _ _ _ _ _ _ _ _ _ h
  rw [unifiedSearch_gives _ _ _ _ _ _ _ _ _ h htr found rfl]

theorem gatherMemory_ends {request : TaskRequest} {r : Except Exc String}
    (h : (gatherMemory request : WorkerM σ String).Ends s tr r s') (htr : ∀ e ∈ tr, Hitless e) :
    r = .ok "" := by
  unfold gatherMemory at h
  split at h
  · obtain ⟨tr₁, tr₂, found, s₁, rfl, h₁, h₂⟩ := (unifiedSearch_returns _ _ _ _ _).ends_bind h
    have hfound := unifiedSearch_ends h₁ fun e he => htr e (List.mem_append_left _ he)
    cases hfound
    exact (Effect.ends_ofExcept h₂).2.1
  · exact (Effect.ends_pure h).2.1

/-- The session when its searches give nothing. -/
def unaided : Session α → α
  | .ret a => a
  | .call _ next => unaided (next (.ok []))

theorem carryOut_runs {session : Session α} {a : α} (h : (carryOut session).Runs tr a)
    (htr : ∀ e ∈ tr, Hitless e) : a = unaided session := by
  induction session generalizing tr with
  | ret b => exact (Program.runs_ret.mp h).2
  | call q next ih =>
    obtain ⟨tr₁, tr₂, ⟨found, _⟩, rfl, h₁, h₂⟩ := Program.runs_bind.mp h
    have hfound : found = .ok [] :=
      unifiedSearch_ends h₁ fun e he => htr e (List.mem_append_left _ he)
    subst hfound
    exact ih _ h₂ fun e he => htr e (List.mem_append_right _ he)

end Searches

/-! ## What is seen from outside -/

/-- The calls that are not to Elasticsearch or the clock, and of the local state what the
status of the task is made of. -/
def outsider : Observer WorkerOp WorkerOp.Resp RunState (String × Option (List Message)) where
  sees := outward
  same
    | .streamEvents _ _, stream₁, stream₂ => stream₁.untimed = stream₂.untimed
    | _, r₁, r₂ => r₁ = r₂
  view s := (s.prURL, s.result)

/-- A call that is seen with its answer as it is. -/
def settled (o : WorkerOp) : Bool :=
  outward o && match o with
    | .streamEvents _ _ => false
    | _ => true

theorem settled_outward {o : WorkerOp} (ho : settled o = true) : outsider.sees o = true :=
  ((Bool.and_eq_true _ _).mp ho).1

theorem settled_same {o : WorkerOp} (ho : settled o = true) {r₁ r₂ : o.Resp}
    (h : outsider.same o r₁ r₂) : r₁ = r₂ := by
  cases o with
  | streamEvents prompt tools => cases ho
  | _ => exact h

theorem outsider_fixes (out : Outside W) : outsider.Fixes (out.Answers Hitless) where
  seen {w w₁ w₂ o r₁ r₂} ho h₁ h₂ := by
    have hfixed : ∀ {o : WorkerOp} {r₁ r₂ : o.Resp}, outsider.sees o = true →
        out.Replies Hitless w o r₁ w₁ → out.Replies Hitless w o r₂ w₂ → r₁ = r₂ ∧ w₁ = w₂ := by
      intro o r₁ r₂ ho h₁ h₂
      have hout : outward o = true := ho
      rw [Outside.Replies, if_pos hout] at h₁ h₂
      exact Prod.mk.inj (h₁.trans h₂.symm)
    cases o with
    | streamEvents prompt tools =>
      obtain ⟨tr₁, stream₁, hrun₁, htr₁, hr₁⟩ := h₁
      obtain ⟨tr₂, stream₂, hrun₂, htr₂, hr₂⟩ := h₂
      obtain ⟨rfl, hw⟩ :=
        Prod.mk.inj ((carryOut_runs hrun₁ htr₁).trans (carryOut_runs hrun₂ htr₂).symm)
      exact ⟨hr₁.trans hr₂.symm, hw⟩
    | invoke prompt tools =>
      obtain ⟨tr₁, hrun₁, htr₁⟩ := h₁
      obtain ⟨tr₂, hrun₂, htr₂⟩ := h₂
      exact Prod.mk.inj ((carryOut_runs hrun₁ htr₁).trans (carryOut_runs hrun₂ htr₂).symm)
    | _ => exact hfixed ho h₁ h₂
  unseen {w w' o r} ho h := by
    have hstays : ∀ {o : WorkerOp} {r : o.Resp}, outsider.sees o = false →
        out.Replies Hitless w o r w' → w' = w := by
      intro o r ho h
      have hout : ¬ outward o = true := ne_true_of_eq_false ho
      rw [Outside.Replies, if_neg hout] at h
      exact h.1
    cases o with
    | streamEvents prompt tools => cases ho
    | invoke prompt tools => cases ho
    | _ => exact hstays ho h

theorem Outside.hitless {out : Outside W} {w w' : W} {tr : List (Event WorkerOp.Resp)}
    (h : Threads (out.Answers Hitless) w tr w') : ∀ e ∈ tr, Hitless e := by
  induction h with
  | nil w =>
    intro e he
    cases he
  | @cons w w₁ w₂ o r tr ha _ ih =>
    intro e he
    rcases List.mem_cons.mp he with rfl | he
    · cases o with
      | search request => exact ha.2
      | _ => trivial
    · exact ih e he

/-! ## Blocks that are not seen -/

theorem Makes.unseen {ok : WorkerOp → Prop} {m : RunM α} (hm : Makes ok m)
    (hok : ∀ o, ok o → outward o = false) : outsider.Unseen m := by
  intro s tr r s' h
  obtain ⟨rfl, htr⟩ := hm s tr r s' h
  exact ⟨rfl, fun e he => hok _ (htr e he)⟩

theorem Looks.unseen (o : WorkerOp) (h : Looks o) : outward o = false := by
  cases o with
  | indexExists _ | createIndex _ _ | search _ | sleep _ | randint _ _ => rfl
  | _ => exact h.elim

theorem addTaskMemory_unseen (doc : Dict) : outsider.Unseen (addTaskMemory doc) := by
  intro s tr r s' h
  obtain ⟨stamp, rfl, _, rfl⟩ := addTaskMemory_ends h
  refine ⟨rfl, fun e he => ?_⟩
  rw [List.mem_singleton.mp he]
  rfl

theorem addSharedMemory_unseen (doc : Dict) : outsider.Unseen (addSharedMemory doc) := by
  intro s tr r s' h
  obtain ⟨stamp, rfl, _, rfl⟩ := addSharedMemory_ends h
  refine ⟨rfl, fun e he => ?_⟩
  rw [List.mem_singleton.mp he]
  rfl

section Unseen
variable {m : RunM α} {f : α → RunM β}

theorem unseen_pure (a : α) : outsider.Unseen (pure a : RunM α) :=
  Effect.Moves.pure outsider.unseen_composes a

theorem unseen_bind (hm : outsider.Unseen m) (hf : ∀ a, outsider.Unseen (f a)) :
    outsider.Unseen (m >>= f) :=
  Effect.Moves.bind outsider.unseen_composes hm hf

end Unseen

theorem flush_unseen : outsider.Unseen flush := by
  apply unseen_bind (Effect.Moves.get outsider.unseen_composes)
  intro s
  apply unseen_bind (ensureIndices_makes.unseen fun o h => Looks.unseen o h.looks)
  intro _
  apply Effect.Moves.ite
  · exact fun _ => unseen_pure _
  · intro _
    apply Effect.Moves.tryCatch outsider.unseen_composes
    · apply unseen_bind _ fun _ => unseen_pure _
      apply Effect.Moves.attempt
      intro s r
      refine ⟨rfl, fun e he => ?_⟩
      rw [List.mem_singleton.mp he]
      rfl
    · exact fun _ => unseen_pure _

theorem recordFailure_unseen (request : TaskRequest) (exc : Exc) :
    outsider.Unseen (recordFailure request exc) := by
  apply Effect.Moves.tryCatch outsider.unseen_composes
  · apply unseen_bind (addTaskMemory_unseen _)
    exact fun _ => unseen_bind flush_unseen fun _ => unseen_pure ()
  · exact fun _ => unseen_pure ()

/-- A tool start counts, whether it flushes the buffer or not. -/
theorem toolStart_unseen (request : TaskRequest) (stepCount : Nat) (name : String)
    (elapsed sinceFlush : Time) :
    outsider.Unseen (handleEvent request stepCount (.toolStart name elapsed sinceFlush)) := by
  apply unseen_bind (Effect.Moves.get outsider.unseen_composes)
  intro s
  apply Effect.Moves.ite
  · intro _
    apply unseen_bind (addTaskMemory_unseen _)
    exact fun _ => unseen_bind flush_unseen fun _ => unseen_pure _
  · exact fun _ => unseen_pure _

theorem toolStart_ends {request : TaskRequest} {stepCount : Nat} {name : String}
    {elapsed sinceFlush : Time} {s s' : RunState} {tr : List (Event WorkerOp.Resp)}
    {r : Except Exc Nat}
    (h : (handleEvent request stepCount (.toolStart name elapsed sinceFlush)).Ends s tr r s') :
    r = .ok (stepCount + 1) := by
  have hrest := Effect.ends_get_bind h
  split at hrest
  · obtain ⟨_, _, _, s₁, rfl, _, hrest⟩ := (addTaskMemory_returns _).ends_bind hrest
    obtain ⟨_, _, _, s₂, rfl, _, hrest⟩ := flush_returns.ends_bind hrest
    exact (Effect.ends_pure hrest).2.1
  · exact (Effect.ends_pure hrest).2.1

/-! ## The same from outside, whatever Elasticsearch does -/

section Alike
variable (out : Outside W) (request : TaskRequest) (notify : Bool) (repoInfo : RepoInfo)

abbrev Alike (m₁ m₂ : RunM α) : Prop := outsider.Agree (out.Answers Hitless) m₁ m₂

theorem attempt_alike {o : WorkerOp} (ho : settled o = true) (h : o.Resp → Except Exc α) :
    Alike out (Effect.attempt o h) (Effect.attempt o h) :=
  Observer.Agree.attempt (outsider_fixes out) (settled_outward ho) fun _ _ hr =>
    congrArg h (settled_same ho hr)

theorem report_alike (percent : Int) (message : String) :
    Alike out (report notify request.taskID percent message)
      (report notify request.taskID percent message) :=
  Observer.Agree.ite (attempt_alike out rfl _) (Observer.Agree.pure ())

theorem runProcess_alike (cmd : List String) (cwd : Option String) :
    Alike out (runProcess cmd cwd) (runProcess cmd cwd) :=
  attempt_alike out rfl _

theorem runChecked_alike (cmd : List String) (cwd : Option String) :
    Alike out (runChecked cmd cwd) (runChecked cmd cwd) :=
  attempt_alike out rfl _

theorem checkOut_alike : Alike out (checkOut request) (checkOut request) := by
  have hcheck : ∀ cmd, Alike out (runChecked cmd (some (workspaceOf request)) >>= fun _ => pure ())
      (runChecked cmd (some (workspaceOf request)) >>= fun _ => pure ()) :=
    fun cmd => Observer.Agree.bind (runChecked_alike out _ _) fun _ => Observer.Agree.pure ()
  apply Observer.Agree.ite
  · apply Observer.Agree.bind (runProcess_alike out _ _)
    exact fun fetched => Observer.Agree.ite (hcheck _) (hcheck _)
  · exact hcheck _

theorem configure_alike : Alike out (configure request) (configure request) := by
  apply Observer.Agree.bind (runChecked_alike out _ _)
  intro _
  exact Observer.Agree.bind (runChecked_alike out _ _) fun _ => Observer.Agree.pure ()

theorem filesModified_alike : Alike out (filesModified request) (filesModified request) := by
  apply Observer.Agree.tryCatch
  · apply Observer.Agree.bind (runProcess_alike out _ _)
    exact fun diff => Observer.Agree.ite (Observer.Agree.pure _) (Observer.Agree.pure _)
  · exact fun _ => Observer.Agree.pure _

/-! ### GitHub -/

theorem getRepoInfo_alike (repoName : String) :
    Alike out (getRepoInfo repoName) (getRepoInfo repoName) :=
  Observer.Agree.bind (attempt_alike out rfl _) fun _ => Observer.Agree.pure _

theorem ensureEach_alike (repo : String) (existing : List String) (labels : List Label) :
    Alike out (ensureEach repo existing labels) (ensureEach repo existing labels) := by
  induction labels with
  | nil => exact Observer.Agree.pure ()
  | cons label rest ih =>
    apply Observer.Agree.bind _ fun _ => ih
    apply Observer.Agree.ite (Observer.Agree.pure ())
    apply Observer.Agree.tryCatch (attempt_alike out rfl _)
    exact fun exc => Observer.Agree.ite (Observer.Agree.pure ()) (Observer.Agree.throw exc)

theorem createDraftPR_alike (repoName head base title body taskID agentRef : String) :
    Alike out (createDraftPR repoName head base title body taskID agentRef)
      (createDraftPR repoName head base title body taskID agentRef) := by
  apply Observer.Agree.bind (attempt_alike out rfl _)
  intro repo
  apply Observer.Agree.bind
  · apply Observer.Agree.bind (attempt_alike out rfl _)
    exact fun existing => ensureEach_alike out _ _ _
  · intro _
    apply Observer.Agree.bind (attempt_alike out rfl _)
    intro pr
    apply Observer.Agree.bind (attempt_alike out rfl _)
    exact fun _ => Observer.Agree.pure _

theorem commentOnPR_alike (prURL comment : String) :
    Alike out (commentOnPR prURL comment) (commentOnPR prURL comment) := by
  unfold commentOnPR
  split
  · exact Observer.Agree.pure false
  · apply Observer.Agree.tryCatch
    · apply Observer.Agree.bind (attempt_alike out rfl _)
      intro repo
      apply Observer.Agree.bind (attempt_alike out rfl _)
      exact fun _ => Observer.Agree.pure true
    · exact fun _ => Observer.Agree.pure false

theorem createOrUpdatePR_alike (output : String) (files : List String) :
    Alike out (createOrUpdatePR request repoInfo output files)
      (createOrUpdatePR request repoInfo output files) := by
  have hset : ∀ url, Alike out (modify fun s => { s with prURL := url })
      (modify fun s => { s with prURL := url }) := by
    intro url
    apply Observer.Agree.modify
    intro s₁ s₂ hview
    exact congrArg (fun view => (url, view.2)) hview
  apply Observer.Agree.ite
  · apply Observer.Agree.bind (hset _)
    intro _
    exact Observer.Agree.bind (commentOnPR_alike out _ _) fun _ => Observer.Agree.pure ()
  · exact Observer.Agree.bind (createDraftPR_alike out _ _ _ _ _ _ _) hset

/-! ### The store -/

variable {k₁ k₂ : RunM β}

theorem addTaskMemory_alike (doc : Dict) (hk : Alike out k₁ k₂) :
    Alike out (addTaskMemory doc >>= fun _ => k₁) (addTaskMemory doc >>= fun _ => k₂) :=
  Observer.Agree.skip (outsider_fixes out) (addTaskMemory_returns doc) (addTaskMemory_returns doc)
    (addTaskMemory_unseen doc) (addTaskMemory_unseen doc) hk

theorem flush_alike (hk : Alike out k₁ k₂) :
    Alike out (flush >>= fun _ => k₁) (flush >>= fun _ => k₂) :=
  Observer.Agree.skip (outsider_fixes out) flush_returns flush_returns flush_unseen flush_unseen hk

theorem getTaskHistory_alike (agentRef : String) (limit : Int) (hk : Alike out k₁ k₂) :
    Alike out (getTaskHistory agentRef limit >>= fun _ => k₁)
      (getTaskHistory agentRef limit >>= fun _ => k₂) := by
  have hreturns : Effect.Returns (getTaskHistory agentRef limit : RunM (List Dict)) :=
    Effect.Returns.tryCatch fun _ => Effect.Returns.pure []
  have hunseen : outsider.Unseen (getTaskHistory agentRef limit) :=
    (getTaskHistory_makes agentRef limit).unseen Looks.unseen
  exact Observer.Agree.skip (outsider_fixes out) hreturns hreturns hunseen hunseen hk

theorem gatherMemory_alike : Alike out (gatherMemory request) (gatherMemory request) := by
  have hunseen : outsider.Unseen (gatherMemory request) :=
    (gatherMemory_makes request).unseen Looks.unseen
  apply Observer.Agree.unseen (outsider_fixes out) hunseen hunseen (.ok "")
  · exact fun h hw => gatherMemory_ends h (Outside.hitless hw)
  · exact fun h hw => gatherMemory_ends h (Outside.hitless hw)

/-! ### The agent -/

theorem handleEvent_alike (stepCount : Nat) {event₁ event₂ : AgentEvent}
    (h : event₁.untimed = event₂.untimed) :
    Alike out (handleEvent request stepCount event₁) (handleEvent request stepCount event₂) := by
  cases event₁ with
  | toolStart name₁ elapsed₁ sinceFlush₁ =>
    cases event₂ with
    | toolStart name₂ elapsed₂ sinceFlush₂ =>
      apply Observer.Agree.unseen (outsider_fixes out) (toolStart_unseen _ _ _ _ _)
        (toolStart_unseen _ _ _ _ _) (.ok (stepCount + 1))
      · exact fun h _ => toolStart_ends h
      · exact fun h _ => toolStart_ends h
    | _ => cases h
  | chatModelEnd output =>
    cases event₂ with
    | chatModelEnd output₂ =>
      cases h
      cases output with
      | none => exact Observer.Agree.pure stepCount
      | some output =>
        apply Observer.Agree.bind
        · apply Observer.Agree.modify
          intro s₁ s₂ hview
          exact congrArg (fun view => (view.1, some [output])) hview
        · exact fun _ => Observer.Agree.pure stepCount
    | _ => cases h
  | toolEnd =>
    cases event₂ with
    | toolEnd => exact Observer.Agree.pure stepCount
    | _ => cases h
  | other kind =>
    cases event₂ with
    | other kind₂ => exact Observer.Agree.pure stepCount
    | _ => cases h

theorem handleEvents_alike {events₁ events₂ : List AgentEvent}
    (h : events₁.map AgentEvent.untimed = events₂.map AgentEvent.untimed) (stepCount : Nat) :
    Alike out (handleEvents request stepCount events₁) (handleEvents request stepCount events₂) := by
  induction events₁ generalizing events₂ stepCount with
  | nil =>
    rw [List.map_eq_nil_iff.mp h.symm]
    exact Observer.Agree.pure ()
  | cons event₁ rest₁ ih =>
    obtain ⟨event₂, rest₂, rfl, hevent, hrest⟩ := List.map_eq_cons_iff.mp h.symm
    apply Observer.Agree.bind (handleEvent_alike out request stepCount hevent.symm)
    exact fun stepCount => ih hrest.symm stepCount

theorem runAttempt_alike (prompt : String) :
    Alike out (runAttempt request prompt) (runAttempt request prompt) := by
  apply Observer.Agree.call_bind (outsider_fixes out) rfl
  intro stream₁ stream₂ hstream
  obtain ⟨hevents, herror⟩ := AgentStream.mk.inj hstream
  apply Observer.Agree.bind (handleEvents_alike out request hevents 0)
  intro _
  rw [herror]
  cases stream₂.error with
  | some exc => exact Observer.Agree.throw exc
  | none =>
    apply Observer.Agree.get_bind
    intro s₁ s₂ hview
    have hresult : s₁.result = s₂.result := congrArg Prod.snd hview
    rw [hresult]
    apply Observer.Agree.ite
    · apply Observer.Agree.bind (attempt_alike out rfl _)
      intro messages
      apply Observer.Agree.modify
      intro s₁ s₂ hview
      exact congrArg (fun view => (view.1, some messages)) hview
    · exact Observer.Agree.pure ()

theorem runAgent_alike (prompt : String) (remaining : Nat) :
    Alike out (runAgent notify request prompt remaining)
      (runAgent notify request prompt remaining) := by
  induction remaining with
  | zero => exact Observer.Agree.pure ()
  | succ remaining ih =>
    apply Observer.Agree.tryCatch (runAttempt_alike out request prompt)
    intro exc
    apply Observer.Agree.ite
    · apply Observer.Agree.modify
      intro s₁ s₂ hview
      exact congrArg (fun view => (view.1, some [recursionMessage])) hview
    · apply Observer.Agree.ite
      · apply Observer.Agree.bind (report_alike out request notify _ _)
        intro _
        apply Observer.Agree.bind (attempt_alike out rfl _)
        exact fun _ => ih
      · exact Observer.Agree.throw exc

/-! ### Endings -/

theorem handleIncomplete_alike (output : String) (uniqueTools : List String) :
    Alike out (handleIncomplete notify request repoInfo output uniqueTools)
      (handleIncomplete notify request repoInfo output uniqueTools) := by
  apply Observer.Agree.bind (report_alike out request notify _ _)
  intro _
  apply Observer.Agree.bind (attempt_alike out rfl _)
  intro _
  apply Observer.Agree.bind (runChecked_alike out _ _)
  intro _
  apply Observer.Agree.bind (runChecked_alike out _ _)
  intro _
  apply Observer.Agree.bind (runChecked_alike out _ _)
  intro _
  apply Observer.Agree.bind
  · apply Observer.Agree.ite (Observer.Agree.pure _)
    exact createDraftPR_alike out _ _ _ _ _ _ _
  · intro prURL
    apply Observer.Agree.bind (commentOnPR_alike out _ _)
    intro _
    apply addTaskMemory_alike
    apply flush_alike
    exact Observer.Agree.pure _

theorem closing_alike (status : TaskStatus) :
    Alike out
      (report notify request.taskID 98 "Flushing memory to Elasticsearch" >>= fun _ =>
        flush >>= fun _ => pure status)
      (report notify request.taskID 98 "Flushing memory to Elasticsearch" >>= fun _ =>
        flush >>= fun _ => pure status) := by
  apply Observer.Agree.bind (report_alike out request notify _ _)
  intro _
  apply flush_alike
  exact Observer.Agree.pure status

theorem finishSucceeded_alike (output : String) (uniqueTools : List String) :
    Alike out (finishSucceeded notify request repoInfo output uniqueTools)
      (finishSucceeded notify request repoInfo output uniqueTools) := by
  apply Observer.Agree.bind (report_alike out request notify _ _)
  intro _
  apply Observer.Agree.bind (runChecked_alike out _ _)
  intro _
  apply Observer.Agree.bind (runChecked_alike out _ _)
  intro _
  apply Observer.Agree.bind (report_alike out request notify _ _)
  intro _
  apply Observer.Agree.bind (filesModified_alike out request)
  intro files
  apply Observer.Agree.bind (createOrUpdatePR_alike out request repoInfo output files)
  intro _
  apply Observer.Agree.bind (report_alike out request notify _ _)
  intro _
  apply Observer.Agree.get_bind
  intro s₁ s₂ hview
  have hurl : s₁.prURL = s₂.prURL := congrArg Prod.fst hview
  rw [hurl]
  apply addTaskMemory_alike
  apply Observer.Agree.ite
  · exact Observer.Agree.skip (outsider_fixes out) (addSharedMemory_returns _)
      (addSharedMemory_returns _) (addSharedMemory_unseen _) (addSharedMemory_unseen _)
      (closing_alike out request notify _)
  · exact closing_alike out request notify _

theorem handleFailure_alike (exc : Exc) :
    Alike out (handleFailure request exc) (handleFailure request exc) := by
  apply Observer.Agree.skip (outsider_fixes out) (recordFailure_returns exc)
    (recordFailure_returns exc) (recordFailure_unseen request exc) (recordFailure_unseen request exc)
  apply Observer.Agree.get_bind
  intro s₁ s₂ hview
  have hurl : s₁.prURL = s₂.prURL := congrArg Prod.fst hview
  rw [hurl]
  exact Observer.Agree.pure _

theorem workOn_alike : Alike out (workOn notify request) (workOn notify request) := by
  apply Observer.Agree.bind (checkOut_alike out request)
  intro _
  apply Observer.Agree.bind (configure_alike out request)
  intro _
  apply Observer.Agree.bind (report_alike out request notify _ _)
  intro _
  apply Observer.Agree.bind (getRepoInfo_alike out _)
  intro repoInfo
  apply getTaskHistory_alike
  apply Observer.Agree.bind (gatherMemory_alike out request)
  intro context
  apply Observer.Agree.bind (runProcess_alike out _ _)
  intro listing
  apply Observer.Agree.bind (report_alike out request notify _ _)
  intro _
  apply Observer.Agree.bind (report_alike out request notify _ _)
  intro _
  apply Observer.Agree.bind (runAgent_alike out request notify _ _)
  intro _
  apply Observer.Agree.get_bind
  intro s₁ s₂ hview
  have hresult : s₁.result = s₂.result := congrArg Prod.snd hview
  rw [hresult]
  apply Observer.Agree.bind (report_alike out request notify _ _)
  intro _
  apply Observer.Agree.bind (runChecked_alike out _ _)
  intro _
  apply Observer.Agree.bind (runProcess_alike out _ _)
  intro diffResult
  apply Observer.Agree.bind (attempt_alike out rfl _)
  intro uniqueTools
  apply Observer.Agree.ite
  · exact handleIncomplete_alike out request notify repoInfo _ _
  · exact finishSucceeded_alike out request notify repoInfo _ _

theorem runBuffered_alike (githubToken : String) :
    Alike out (runBuffered githubToken notify request) (runBuffered githubToken notify request) := by
  apply Observer.Agree.tryCatch
  · apply Observer.Agree.bind (report_alike out request notify _ _)
    intro _
    apply Observer.Agree.bind (runChecked_alike out _ _)
    exact fun _ => workOn_alike out request notify
  · exact handleFailure_alike out request

end Alike

/-! ## Two runs -/

theorem runBuffered_returns (githubToken : String) (notify : Bool) (request : TaskRequest) :
    Effect.Returns (runBuffered githubToken notify request) :=
  Effect.Returns.tryCatch fun exc => handleFailure_returns exc

section Runs
variable {githubToken : String} {notify : Bool} {request : TaskRequest} {out : Outside W}
  {w w₁ w₂ : W} {tr₁ tr₂ : List (Event WorkerOp.Resp)} {r₁ r₂ : Except Exc TaskStatus}
  {s₁ s₂ : RunState}

/-- Two runs whose searches have no hits look the same from outside. -/
theorem runTask_alike (hrun₁ : (runTask githubToken notify request).Runs tr₁ (r₁, s₁))
    (hans₁ : Threads (out.Answers Hitless) w tr₁ w₁)
    (hrun₂ : (runTask githubToken notify request).Runs tr₂ (r₂, s₂))
    (hans₂ : Threads (out.Answers Hitless) w tr₂ w₂) :
    outsider.seen tr₁ = outsider.seen tr₂ ∧ w₁ = w₂ ∧ ∃ status, r₁ = .ok status ∧ r₂ = .ok status := by
  -- the first call asks for the time, which differs
  obtain ⟨start₁, rest₁, rfl, hrest₁⟩ := Program.runs_call.mp hrun₁
  obtain ⟨start₂, rest₂, rfl, hrest₂⟩ := Program.runs_call.mp hrun₂
  obtain ⟨w₃, ⟨rfl, _⟩, hthreads₁⟩ := hans₁.of_cons
  obtain ⟨w₄, ⟨rfl, _⟩, hthreads₂⟩ := hans₂.of_cons
  have hview : outsider.view (.begin request start₁) = outsider.view (.begin request start₂) := rfl
  obtain ⟨rfl, _, hw, hseen⟩ :=
    runBuffered_alike out request notify githubToken hview hrest₁ hrest₂ hthreads₁ hthreads₂
  obtain ⟨status, rfl⟩ := runBuffered_returns githubToken notify request _ _ _ _ hrest₁
  exact ⟨hseen, hw, status, rfl, rfl⟩

/-- Whatever calls to Elasticsearch raise, a run makes the calls to git, to GitHub and to
the agent that it makes when Elasticsearch is healthy and knows nothing, in the same order,
and returns the same status. -/
theorem outage_unseen (hrun₁ : (runTask githubToken notify request).Runs tr₁ (r₁, s₁))
    (htrouble : Threads (out.Answers Hitless) w tr₁ w₁)
    (hrun₂ : (runTask githubToken notify request).Runs tr₂ (r₂, s₂))
    (hhealthy : Threads (out.Answers Healthy) w tr₂ w₂) :
    outsider.seen tr₁ = outsider.seen tr₂ ∧ w₁ = w₂ ∧ ∃ status, r₁ = .ok status ∧ r₂ = .ok status :=
  runTask_alike hrun₁ htrouble hrun₂
    (hhealthy.mono fun ha => ha.mono fun _ => Healthy.hitless)

end Runs

/-! ## Runs with given answers of Elasticsearch -/

/-- Elasticsearch and the clock answer with `g`. -/
def Outside.reply (out : Outside W) (g : (o : WorkerOp) → o.Resp) (w : W) : (o : WorkerOp) → o.Resp × W
  | .streamEvents prompt tools =>
    (play (fun (_ : Unit) o => (g o, ())) (carryOut (out.stream w prompt tools)) ()).2.1
  | .invoke prompt tools =>
    (play (fun (_ : Unit) o => (g o, ())) (carryOut (out.invoke w prompt tools)) ()).2.1
  | o => if outward o = true then out.respond w o else (g o, w)

theorem play_elastic {g : (o : WorkerOp) → o.Resp} {elastic : Event WorkerOp.Resp → Prop}
    (hg : ∀ o, elastic ⟨o, g o⟩) (p : Program WorkerOp WorkerOp.Resp α) :
    ∀ e ∈ (play (fun (_ : Unit) o => (g o, ())) p ()).1, elastic e := by
  induction p with
  | ret a =>
    intro e he
    cases he
  | call o next ih =>
    intro e he
    rcases List.mem_cons.mp he with rfl | he
    · exact hg o
    · exact ih _ e he

theorem Outside.answers_reply (out : Outside W) {g : (o : WorkerOp) → o.Resp}
    {elastic : Event WorkerOp.Resp → Prop} (hg : ∀ o, elastic ⟨o, g o⟩) (w : W) (o : WorkerOp) :
    out.Answers elastic w o (out.reply g w o).1 (out.reply g w o).2 := by
  have hreply : ∀ o, out.Replies elastic w o
      (if outward o = true then out.respond w o else (g o, w)).1
      (if outward o = true then out.respond w o else (g o, w)).2 := by
    intro o
    unfold Replies
    split
    · rfl
    · exact ⟨rfl, hg o⟩
  cases o with
  | streamEvents prompt tools => exact ⟨_, _, runs_play _ _ (), play_elastic hg _, rfl⟩
  | invoke prompt tools => exact ⟨_, runs_play _ _ (), play_elastic hg _⟩
  | _ => exact hreply _

/-- Every call to Elasticsearch raises. -/
def raising : (o : WorkerOp) → o.Resp
  | .indexExists _ => .error ⟨.connectionError, "Connection error"⟩
  | .createIndex _ _ => .error ⟨.connectionError, "Connection error"⟩
  | .indexDocument _ _ => .error ⟨.connectionError, "Connection error"⟩
  | .search _ => .error ⟨.connectionTimeout, "Connection timed out"⟩
  | .deleteByQuery _ _ => .error ⟨.connectionError, "Connection error"⟩
  | .bulk _ => .error ⟨.connectionError, "Connection error"⟩
  | o => o.benign

/-- The agent gives up if its search finds anything. -/
def demoOutside : Outside Unit where
  respond w o := (demoAnswers 0 o, w)
  stream w _ _ := .call ⟨"Add a page", none, 5⟩ fun
    | .ok [] => .ret (demoStream 0, w)
    | _ => .ret (⟨[], none⟩, w)
  invoke w _ _ := .ret (.ok [], w)

def demoOutage (g : (o : WorkerOp) → o.Resp) :
    List (Event WorkerOp.Resp) × (Except Exc TaskStatus × RunState) × Unit :=
  play (demoOutside.reply g) (runTask "token" false demoRequest) ()

theorem raising_hitless (o : WorkerOp) : Hitless ⟨o, raising o⟩ := by
  cases o <;> trivial

theorem benign_healthy (o : WorkerOp) : Healthy ⟨o, o.benign⟩ := by
  cases o with
  | indexExists _ | indexDocument _ _ | deleteByQuery _ _ | bulk _ => exact ⟨_, rfl⟩
  | search _ | createIndex _ _ => rfl
  | _ => trivial

theorem outage_unseen_demo :
    outsider.seen (demoOutage raising).1 = outsider.seen (demoOutage WorkerOp.benign).1 ∧
      (demoOutage raising).2.2 = (demoOutage WorkerOp.benign).2.2 ∧ ∃ status,
        (demoOutage raising).2.1.1 = .ok status ∧ (demoOutage WorkerOp.benign).2.1.1 = .ok status :=
  outage_unseen (runs_play _ _ ()) (threads_play _ (demoOutside.answers_reply raising_hitless) _ ())
    (runs_play _ _ ()) (threads_play _ (demoOutside.answers_reply benign_healthy) _ ())

end BulletFarm.Worker
