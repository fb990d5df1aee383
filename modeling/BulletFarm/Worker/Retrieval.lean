import BulletFarm.Worker.Calls
import BulletFarm.Worker.Ranking

/-!
# The fallback ladder of a search

A round searches the enabled indices in order until a search fails. `unified_search` tries
at most three rounds: the full query, once more after a pause, and then a simpler one. What
a round gives is what its own searches gave.
-/

namespace BulletFarm.Worker

open Interaction Python

set_option autoImplicit false

/-! ## Rounds -/

/-- A search as it was asked and answered. -/
abbrev Asked : Type := SearchRequest × Except Exc (List Hit)

/-- The searches of one round. -/
abbrev Round : Type := List Asked

/-- The enabled indices, in the order they are searched. -/
def enabledIndices (task shared : Bool) : List String :=
  (if task then [taskMemoryIndex] else []) ++ if shared then [sharedMemoryIndex] else []

namespace Round

/-- How the round failed, if it did. -/
def failure : Round → Option Exc
  | [] => none
  | (_, .error exc) :: _ => some exc
  | (_, .ok _) :: round => failure round

/-- The hits the round got from an index. -/
def hits (index : String) : Round → List Hit
  | [] => []
  | (request, .ok found) :: round =>
    if request.index = index then found ++ hits index round else hits index round
  | (_, .error _) :: round => hits index round

/-- The merged ranking of what the round found, as long as is wanted: the hits of both indices,
each tagged with its own, best scores first; on a tie the task's hits go before the shared ones,
and those of one index in the order it gave them. -/
def ranking (round : Round) (limit : Int) : List Found :=
  upTo limit ((tagged "task_memory" (round.hits taskMemoryIndex) ++
    tagged "shared_memory" (round.hits sharedMemoryIndex)).mergeSort Found.before)

/-- The round made the searches it was to make, up to the one that failed. -/
structure Tries (requests : List SearchRequest) (round : Round) : Prop where
  ordered : round.map Prod.fst <+: requests
  all : round.failure = none → round.map Prod.fst = requests

/-- Elasticsearch gave every hit a score, as it does when no order is asked for. -/
def Scored (round : Round) : Prop := ∀ a ∈ round, ∀ found, a.2 = .ok found → ∀ h ∈ found, h.score ≠ none

section Append
variable {first second : Round} {requests requests' : List SearchRequest}

theorem failure_append (h : first.failure = none) : failure (first ++ second) = second.failure := by
  induction first with
  | nil => rfl
  | cons a first ih =>
    obtain ⟨request, _ | found⟩ := a
    · cases h
    · exact ih h

theorem hits_append (index : String) (h : first.failure = none) :
    hits index (first ++ second) = first.hits index ++ second.hits index := by
  induction first with
  | nil => rfl
  | cons a first ih =>
    obtain ⟨request, _ | found⟩ := a
    · cases h
    · rw [List.cons_append, hits, hits, ih h]
      split
      · rw [List.append_assoc]
      · rfl

theorem Scored.hits (h : first.Scored) (index : String) : ∀ hit ∈ first.hits index, hit.score ≠ none := by
  induction first with
  | nil => simp [Round.hits]
  | cons a first ih =>
    have hrest := ih fun b hb => h b (List.mem_cons_of_mem _ hb)
    obtain ⟨request, exc | found⟩ := a
    · exact hrest
    · rw [Round.hits]
      split
      · intro hit hhit
        rcases List.mem_append.mp hhit with hfound | hfirst
        · exact h _ List.mem_cons_self found rfl hit hfound
        · exact hrest hit hfirst
      · exact hrest

theorem mem_of_hits {index : String} {hit : Hit} (h : hit ∈ first.hits index) :
    index ∈ first.map fun a => a.1.index := by
  induction first with
  | nil => cases h
  | cons a first ih =>
    rw [List.map_cons, List.mem_cons]
    obtain ⟨request, exc | found⟩ := a
    · exact Or.inr (ih h)
    · rw [Round.hits] at h
      split at h
      · next hindex => exact Or.inl hindex.symm
      · exact Or.inr (ih h)

theorem Tries.append (hfirst : Tries requests first) (h : first.failure = none)
    (hsecond : Tries requests' second) : Tries (requests ++ requests') (first ++ second) := by
  refine ⟨?_, ?_⟩
  · rw [List.map_append, hfirst.all h]
    exact (List.prefix_append_right_inj requests).mpr hsecond.ordered
  · intro hnone
    rw [failure_append h] at hnone
    rw [List.map_append, hfirst.all h, hsecond.all hnone]

theorem Tries.stop (hfirst : Tries requests first) {exc : Exc} (h : first.failure = some exc) :
    Tries (requests ++ requests') first := by
  refine ⟨hfirst.ordered.trans (List.prefix_append _ _), ?_⟩
  intro hnone
  rw [h] at hnone
  cases hnone

end Append

end Round

/-- A search of a ladder. -/
def timedRequest (index : String) (query : Json.Value) (limit : Int) : SearchRequest where
  index := index
  query := query
  size := limit
  timeout := some (toString esQueryTimeoutMs ++ "ms")

/-- The searches of a round with these two queries. -/
def requestsOf (taskQuery sharedQuery : Json.Value) (limit : Int) (task shared : Bool) :
    List SearchRequest :=
  (if task then [timedRequest taskMemoryIndex taskQuery limit] else []) ++
    if shared then [timedRequest sharedMemoryIndex sharedQuery limit] else []

theorem requestsOf_index (taskQuery sharedQuery : Json.Value) (limit : Int) (task shared : Bool) :
    (requestsOf taskQuery sharedQuery limit task shared).map SearchRequest.index =
      enabledIndices task shared := by
  cases task <;> cases shared <;> rfl

/-- The searches of a full query. -/
def fullRequests (queryText : String) (skills : Option (List String)) (limit : Int)
    (task shared : Bool) : List SearchRequest :=
  requestsOf (fullQuery queryText skills ["prompt", "output", "methodology"] "skills_used")
    (fullQuery queryText skills ["summary", "context"] "skills") limit task shared

/-- The searches of the fallback. -/
def bm25Requests (queryText : String) (limit : Int) (task shared : Bool) : List SearchRequest :=
  requestsOf (.obj [("match", .obj [("prompt", .str queryText)])])
    (.obj [("match", .obj [("summary", .str queryText)])]) limit task shared

/-- The searches each round is to make. -/
def ladder (queryText : String) (skills : Option (List String)) (limit : Int) (task shared : Bool) :
    List (List SearchRequest) :=
  if !task && !shared then []
  else [fullRequests queryText skills limit task shared, fullRequests queryText skills limit task shared,
    bm25Requests queryText limit task shared]

/-! ## What a run shows of them -/

def asked : Event WorkerOp.Resp → Option Asked
  | ⟨.search request, answer⟩ => some (request, answer)
  | _ => none

def paused : Event WorkerOp.Resp → Option Nat
  | ⟨.sleep ms, _⟩ => some ms
  | _ => none

/-- The searches of a run. -/
def searches (tr : List (Event WorkerOp.Resp)) : List Asked := tr.filterMap asked

/-- The pauses of a run, in milliseconds. -/
def pauses (tr : List (Event WorkerOp.Resp)) : List Nat := tr.filterMap paused

section Traces
variable {tr tr₁ tr₂ : List (Event WorkerOp.Resp)}

@[simp] theorem searches_append : searches (tr₁ ++ tr₂) = searches tr₁ ++ searches tr₂ :=
  List.filterMap_append

@[simp] theorem pauses_append : pauses (tr₁ ++ tr₂) = pauses tr₁ ++ pauses tr₂ :=
  List.filterMap_append

theorem Ensures.silent {e : Event WorkerOp.Resp} (h : Ensures e.1) : asked e = none ∧ paused e = none := by
  obtain ⟨o, r⟩ := e
  cases o with
  | indexExists _ => exact ⟨rfl, rfl⟩
  | createIndex _ _ => exact ⟨rfl, rfl⟩
  | _ => exact h.elim

theorem searches_ensures (h : ∀ e ∈ tr, Ensures e.1) : searches tr = [] :=
  List.filterMap_eq_nil_iff.mpr fun e he => (h e he).silent.1

theorem pauses_ensures (h : ∀ e ∈ tr, Ensures e.1) : pauses tr = [] :=
  List.filterMap_eq_nil_iff.mpr fun e he => (h e he).silent.2

end Traces

/-! ## One round -/

section Rounds
variable {σ : Type} {s s' : σ} {tr : List (Event WorkerOp.Resp)} {limit : Int} {task shared : Bool}

theorem searchIf_ends {enabled : Bool} {index : String} {query : Json.Value}
    {r : Except Exc (List Hit)}
    (h : (searchIf enabled index query limit : WorkerM σ (List Hit)).Ends s tr r s') :
    ∃ part : Round, searches tr = part ∧ pauses tr = [] ∧
      part.Tries (if enabled then [timedRequest index query limit] else []) ∧
      (∀ exc, r = .error exc → part.failure = some exc) ∧
      ∀ found, r = .ok found → part.failure = none ∧ part.hits index = found ∧
        ∀ other, other ≠ index → part.hits other = [] := by
  unfold searchIf at h
  split at h
  · next henabled =>
    obtain ⟨answer, rfl, rfl, rfl⟩ := Effect.ends_attempt h
    rw [if_pos henabled]
    refine ⟨[(timedRequest index query limit, r)], rfl, rfl, ⟨List.prefix_rfl, fun _ => rfl⟩, ?_, ?_⟩
    · rintro exc rfl
      rfl
    · rintro found rfl
      refine ⟨rfl, ?_, ?_⟩
      · simp [Round.hits, timedRequest]
      · intro other hother
        simp [Round.hits, timedRequest, hother.symm]
  · next henabled =>
    obtain ⟨rfl, rfl, rfl⟩ := Effect.ends_pure h
    rw [if_neg henabled]
    refine ⟨[], rfl, rfl, ⟨List.prefix_rfl, fun _ => rfl⟩, ?_, ?_⟩
    · intro exc hexc
      cases hexc
    · intro found hfound
      cases hfound
      exact ⟨rfl, rfl, fun _ _ => rfl⟩

/-- Hits that have scores are ranked; others may stop the ranking. -/
theorem rankResults_ends {taskResults sharedResults : List Hit} {r : Except Exc (List Found)}
    (h : (rankResults taskResults sharedResults limit : WorkerM σ (List Found)).Ends s tr r s') :
    tr = [] ∧ (∀ found, r = .ok found → found = mergeAndRankResults taskResults sharedResults limit) ∧
      ((∀ hit ∈ taskResults ++ sharedResults, hit.score ≠ none) →
        r = .ok (mergeAndRankResults taskResults sharedResults limit)) := by
  unfold rankResults at h
  dsimp only at h
  split at h
  · next hunscored =>
    obtain ⟨rfl, hr⟩ := Program.runs_ret.mp h
    cases hr
    refine ⟨rfl, ?_, ?_⟩
    · intro found hfound
      cases hfound
    · intro hscored
      obtain ⟨hit, hhit, hnone⟩ := hunscored.2
      exact absurd hnone (hscored hit hhit)
  · obtain ⟨rfl, rfl, rfl⟩ := Effect.ends_pure h
    refine ⟨rfl, ?_, fun _ => rfl⟩
    intro found hfound
    cases hfound
    rfl

/-- How a round ends. -/
structure Round.Ends (round : Round) (limit : Int) (r : Except Exc (List Found)) : Prop where
  raises : ∀ exc, round.failure = some exc → r = .error exc
  gives : ∀ found, r = .ok found → round.failure = none ∧ found = round.ranking limit
  ranks : round.failure = none → round.Scored → r = .ok (round.ranking limit)

theorem Round.Ends.failed {round : Round} {exc : Exc} (h : round.failure = some exc) :
    round.Ends limit (.error exc) := by
  refine ⟨?_, ?_, ?_⟩
  · intro exc' hexc
    rw [h] at hexc
    cases hexc
    rfl
  · intro found hfound
    cases hfound
  · intro hnone
    rw [h] at hnone
    cases hnone

theorem Round.Ends.ranked {round : Round} {r : Except Exc (List Found)} (h : round.failure = none)
    (hgives : ∀ found, r = .ok found → found = round.ranking limit)
    (hranks : round.Scored → r = .ok (round.ranking limit)) : round.Ends limit r := by
  refine ⟨?_, fun found hfound => ⟨h, hgives found hfound⟩, fun _ => hranks⟩
  intro exc hexc
  rw [h] at hexc
  cases hexc

theorem executeQuery_ends {taskQuery sharedQuery : Json.Value} {r : Except Exc (List Found)}
    (h : (executeQuery taskQuery sharedQuery limit task shared : WorkerM σ (List Found)).Ends s tr r s') :
    ∃ round : Round, searches tr = round ∧ pauses tr = [] ∧
      round.Tries (requestsOf taskQuery sharedQuery limit task shared) ∧ round.Ends limit r := by
  obtain ⟨tr₁, tr₂, _, s₁, rfl, h₁, h₂⟩ := ensureIndices_returns.ends_bind h
  have hensures := (ensureIndices_makes _ _ _ _ h₁).2
  rw [searches_append, pauses_append, searches_ensures hensures, pauses_ensures hensures]
  rcases Effect.ends_bind h₂ with ⟨tr₃, tr₄, taskResults, s₂, rfl, h₃, h₄⟩ | ⟨exc, rfl, h₃⟩
  · obtain ⟨first, hfirst, hpauses, htries, _, hok⟩ := searchIf_ends h₃
    obtain ⟨hnone, htask, hothers⟩ := hok taskResults rfl
    rw [searches_append, pauses_append, hfirst, hpauses]
    rcases Effect.ends_bind h₄ with ⟨tr₅, tr₆, sharedResults, s₃, rfl, h₅, h₆⟩ | ⟨exc, rfl, h₅⟩
    · obtain ⟨second, hsecond, hpauses', htries', _, hok'⟩ := searchIf_ends h₅
      obtain ⟨hnone', hshared, hothers'⟩ := hok' sharedResults rfl
      obtain ⟨rfl, hgives, hranks⟩ := rankResults_ends h₆
      have htaskHits : Round.hits taskMemoryIndex (first ++ second) = taskResults := by
        rw [Round.hits_append _ hnone, htask, hothers' _ (by decide), List.append_nil]
      have hsharedHits : Round.hits sharedMemoryIndex (first ++ second) = sharedResults := by
        rw [Round.hits_append _ hnone, hothers _ (by decide), hshared, List.nil_append]
      have hranking : Round.ranking (first ++ second) limit =
          mergeAndRankResults taskResults sharedResults limit := by
        rw [Round.ranking, htaskHits, hsharedHits, mergeAndRankResults_eq]
      rw [List.append_nil, hsecond, hpauses']
      refine ⟨first ++ second, rfl, rfl, htries.append hnone htries', Round.Ends.ranked ?_ ?_ ?_⟩
      · rw [Round.failure_append hnone, hnone']
      · rwa [hranking]
      · intro hscored
        rw [hranking]
        apply hranks
        intro hit hhit
        rcases List.mem_append.mp hhit with hin | hin
        · exact hscored.hits taskMemoryIndex hit (by rwa [htaskHits])
        · exact hscored.hits sharedMemoryIndex hit (by rwa [hsharedHits])
    · obtain ⟨second, hsecond, hpauses', htries', herror, _⟩ := searchIf_ends h₅
      rw [hsecond, hpauses']
      refine ⟨first ++ second, rfl, rfl, htries.append hnone htries', Round.Ends.failed ?_⟩
      rw [Round.failure_append hnone]
      exact herror exc rfl
  · obtain ⟨first, hfirst, hpauses, htries, herror, _⟩ := searchIf_ends h₃
    rw [hfirst, hpauses]
    exact ⟨first, rfl, rfl, htries.stop (herror exc rfl), Round.Ends.failed (herror exc rfl)⟩

end Rounds

/-! ## From round to round -/

/-- The next round is tried when one fails, until none is left. -/
inductive Falls (limit : Int) : List (List SearchRequest) → List Round → List Found → Prop where
  | exhausted : Falls limit [] [] []
  | answered {requests : List SearchRequest} {later : List (List SearchRequest)} {round : Round}
      {found : List Found} : round.Tries requests → round.Ends limit (.ok found) →
      Falls limit (requests :: later) [round] found
  | next {requests : List SearchRequest} {later : List (List SearchRequest)} {round : Round}
      {rounds : List Round} {found : List Found} {exc : Exc} : round.Tries requests →
      round.Ends limit (.error exc) → Falls limit later rounds found →
      Falls limit (requests :: later) (round :: rounds) found

namespace Falls
variable {limit : Int} {requests : List (List SearchRequest)} {rounds : List Round}
  {found : List Found}

theorem tries (h : Falls limit requests rounds found) :
    List.Forall₂ Round.Tries (requests.take rounds.length) rounds := by
  induction h with
  | exhausted => exact .nil
  | answered htries _ => exact .cons htries .nil
  | next htries _ _ ih => exact .cons htries ih

theorem tried (h : Falls limit requests rounds found) :
    ∀ round ∈ rounds, ∃ searches ∈ requests, round.Tries searches := by
  induction h with
  | exhausted => simp
  | answered htries _ =>
    intro round hround
    rw [List.mem_singleton.mp hround]
    exact ⟨_, List.mem_cons_self, htries⟩
  | next htries _ _ ih =>
    intro round hround
    rcases List.mem_cons.mp hround with rfl | hround
    · exact ⟨_, List.mem_cons_self, htries⟩
    · obtain ⟨searches, hsearches, htries'⟩ := ih round hround
      exact ⟨searches, List.mem_cons_of_mem _ hsearches, htries'⟩

theorem length_le (h : Falls limit requests rounds found) : rounds.length ≤ requests.length := by
  induction h with
  | exhausted => exact Nat.le_refl 0
  | answered _ _ => exact Nat.le_add_left 1 _
  | next _ _ _ ih => exact Nat.succ_le_succ ih

/-- The first round that succeeds is the last one, and what is found is its ranking. -/
theorem first (h : Falls limit requests rounds found) {earlier later : List Round} {round : Round}
    (hrounds : rounds = earlier ++ round :: later) (hround : round.failure = none)
    (hscored : round.Scored) : later = [] ∧ found = round.ranking limit := by
  induction h generalizing earlier with
  | exhausted =>
    cases earlier <;> cases hrounds
  | @answered _ _ last found _ hends =>
    cases earlier with
    | nil =>
      cases hrounds
      exact ⟨rfl, (hends.gives _ rfl).2⟩
    | cons _ earlier => cases earlier <;> cases hrounds
  | @next _ _ failed rest found exc _ hends _ ih =>
    cases earlier with
    | nil =>
      cases hrounds
      cases hends.ranks hround hscored
    | cons _ earlier =>
      cases hrounds
      exact ih rfl

/-- Nothing is found if no round succeeds, and then all of them are tried. -/
theorem none (h : Falls limit requests rounds found) (hfailed : ∀ round ∈ rounds, round.failure ≠ .none) :
    found = [] ∧ rounds.length = requests.length := by
  induction h with
  | exhausted => exact ⟨rfl, rfl⟩
  | answered _ hends => exact absurd (hends.gives _ rfl).1 (hfailed _ List.mem_cons_self)
  | next _ _ _ ih =>
    obtain ⟨hfound, hlength⟩ := ih fun round hround => hfailed round (List.mem_cons_of_mem _ hround)
    exact ⟨hfound, congrArg (· + 1) hlength⟩

/-- Whatever is found was found by one of the rounds. -/
theorem found_eq (h : Falls limit requests rounds found) :
    found = [] ∨ ∃ round ∈ rounds, found = round.ranking limit := by
  induction h with
  | exhausted => exact Or.inl rfl
  | answered _ hends => exact Or.inr ⟨_, List.mem_cons_self, (hends.gives _ rfl).2⟩
  | next _ _ _ ih =>
    rcases ih with hfound | ⟨round, hround, hfound⟩
    · exact Or.inl hfound
    · exact Or.inr ⟨round, List.mem_cons_of_mem _ hround, hfound⟩

end Falls

/-! ## The ladder -/

/-- What holds of a search by its rounds, its pauses and what it found. -/
structure FallsBack (queryText : String) (skills : Option (List String)) (limit : Int)
    (task shared : Bool) (rounds : List Round) (naps : List Nat) (found : List Found) : Prop where
  atMostThree : rounds.length ≤ 3
  tries : List.Forall₂ Round.Tries
    ((ladder queryText skills limit task shared).take rounds.length) rounds
  once : ∀ round ∈ rounds, (round.map fun a => a.1.index) <+: enabledIndices task shared
  naps_le : naps.length ≤ 1 ∧ ∀ ms ∈ naps, 50 ≤ ms ∧ ms ≤ 100
  permanent : ∀ round later exc, rounds = round :: later → round.failure = some exc →
    isRetryableError exc = false → later = [] ∧ naps = [] ∧ found = []
  first : ∀ earlier round later, rounds = earlier ++ round :: later →
    (∀ before ∈ earlier, before.failure ≠ none) → round.failure = none → round.Scored →
      later = [] ∧ found = round.ranking limit
  none : (∀ round ∈ rounds, round.failure ≠ none) → found = [] ∧
    (rounds.length = (ladder queryText skills limit task shared).length ∨
      ∃ round exc, rounds = [round] ∧ round.failure = some exc ∧ isRetryableError exc = false)
  enabled : ∀ f ∈ found, f.sourceIndex ∈ enabledIndices task shared

section Search
variable {σ : Type} {s s' : σ} {tr : List (Event WorkerOp.Resp)} {queryText : String}
  {skills : Option (List String)} {limit : Int} {task shared : Bool}

theorem addJitter_ends {base jitter : Nat} {r : Except Exc Nat}
    (h : (addJitter base jitter : WorkerM σ Nat).Ends s tr r s') :
    ∃ delay, r = .ok delay ∧ base ≤ delay ∧ delay ≤ base + jitter ∧ searches tr = [] ∧ pauses tr = [] := by
  obtain ⟨x, tr', rfl, h₁⟩ := Effect.ends_call_bind h
  obtain ⟨rfl, rfl, rfl⟩ := Effect.ends_pure h₁
  have hle := (x.property (Nat.zero_le jitter)).2
  exact ⟨_, rfl, Nat.le_add_right _ _, Nat.add_le_add_left hle base, rfl, rfl⟩

theorem retry_ends {r : Except Exc (List Found)}
    (h : Effect.Ends (tryCatch (do
          let delay ← addJitter 50 esRetryJitterMs
          ask (.sleep delay)
          executeFullQuery queryText skills limit task shared) fun _ =>
            tryCatch (executeBm25Query queryText limit task shared) fun _ =>
              pure [] : WorkerM σ (List Found)) s tr r s') :
    ∃ found rounds ms, r = .ok found ∧ searches tr = rounds.flatten ∧ pauses tr = [ms] ∧
      50 ≤ ms ∧ ms ≤ 100 ∧ Falls limit [fullRequests queryText skills limit task shared,
        bm25Requests queryText limit task shared] rounds found := by
  have hpause : ∀ {tr : List (Event WorkerOp.Resp)} {r : Except Exc (List Found)} {s₁ : σ},
      Effect.Ends (do
        let delay ← addJitter 50 esRetryJitterMs
        ask (.sleep delay)
        executeFullQuery queryText skills limit task shared : WorkerM σ (List Found)) s tr r s₁ →
      ∃ (round : Round) (ms : Nat), searches tr = round ∧ pauses tr = [ms] ∧ 50 ≤ ms ∧ ms ≤ 100 ∧
        round.Tries (fullRequests queryText skills limit task shared) ∧ round.Ends limit r := by
    intro tr r s₁ h
    rcases Effect.ends_bind h with ⟨tr₁, tr₂, delay, s₂, rfl, h₁, h₂⟩ | ⟨exc, rfl, h₁⟩
    · obtain ⟨ms, hms, hlow, hhigh, hsearches, hpauses⟩ := addJitter_ends h₁
      cases hms
      obtain ⟨x, tr₃, rfl, h₃⟩ := Effect.ends_call_bind h₂
      obtain ⟨round, hround, hnone, htries, hends⟩ := executeQuery_ends h₃
      refine ⟨round, delay, ?_, ?_, hlow, hhigh, htries, hends⟩
      · rw [searches_append, hsearches]
        exact hround
      · rw [pauses_append, hpauses]
        exact congrArg (delay :: ·) hnone
    · obtain ⟨ms, hms, _⟩ := addJitter_ends h₁
      cases hms
  rcases Effect.ends_tryCatch h with ⟨found, rfl, h₁⟩ | ⟨tr₁, tr₂, exc, s₁, rfl, h₁, h₂⟩
  · obtain ⟨round, ms, hround, hms, hlow, hhigh, htries, hends⟩ := hpause h₁
    exact ⟨found, [round], ms, rfl, by simp [hround], hms, hlow, hhigh, .answered htries hends⟩
  · obtain ⟨round, ms, hround, hms, hlow, hhigh, htries, hends⟩ := hpause h₁
    rcases Effect.ends_tryCatch h₂ with ⟨found, rfl, h₃⟩ | ⟨tr₃, tr₄, exc', s₂, rfl, h₃, h₄⟩
    · obtain ⟨last, hlast, hpauses, htries', hends'⟩ := executeQuery_ends h₃
      exact ⟨found, [round, last], ms, rfl, by simp [hround, hlast], by simp [hms, hpauses], hlow, hhigh,
        .next htries hends (.answered htries' hends')⟩
    · obtain ⟨last, hlast, hpauses, htries', hends'⟩ := executeQuery_ends h₃
      obtain ⟨rfl, rfl, rfl⟩ := Effect.ends_pure h₄
      exact ⟨[], [round, last], ms, rfl, by simp [hround, hlast], by simp [hms, hpauses], hlow, hhigh,
        .next htries hends (.next htries' hends' .exhausted)⟩

/-- The rounds of a search, unless it gives up on the first one. -/
theorem unifiedSearch_falls {r : Except Exc (List Found)}
    (h : (unifiedSearch queryText skills limit task shared : WorkerM σ (List Found)).Ends s tr r s') :
    ∃ found rounds, r = .ok found ∧ searches tr = rounds.flatten ∧
      ((Falls limit (ladder queryText skills limit task shared) rounds found ∧
          (pauses tr).length ≤ 1 ∧ (∀ ms ∈ pauses tr, 50 ≤ ms ∧ ms ≤ 100) ∧
          ∀ round later exc, rounds = round :: later → round.failure = some exc →
            isRetryableError exc = true) ∨
        ∃ (round : Round) (requests : List SearchRequest) (later : List (List SearchRequest)) (exc : Exc),
          rounds = [round] ∧ found = [] ∧ pauses tr = [] ∧
          ladder queryText skills limit task shared = requests :: later ∧ round.Tries requests ∧
          round.Ends limit (.error exc) ∧ isRetryableError exc = false) := by
  unfold unifiedSearch at h
  unfold ladder
  split at h
  · next hdisabled =>
    obtain ⟨rfl, rfl, rfl⟩ := Effect.ends_pure h
    rw [if_pos hdisabled]
    refine ⟨[], [], rfl, rfl, Or.inl ⟨.exhausted, Nat.zero_le 1, ?_, ?_⟩⟩
    · simp [pauses]
    · intro round later exc hrounds
      cases hrounds
  · next henabled =>
    rw [if_neg henabled]
    rcases Effect.ends_tryCatch h with ⟨found, rfl, h₁⟩ | ⟨tr₁, tr₂, exc, s₁, rfl, h₁, h₂⟩
    · obtain ⟨round, hround, hpauses, htries, hends⟩ := executeQuery_ends h₁
      refine ⟨found, [round], rfl, by simp [hround], Or.inl ⟨.answered htries hends, ?_, ?_, ?_⟩⟩
      · simp [hpauses]
      · simp [hpauses]
      · intro _ later exc hrounds hfailure
        cases hrounds
        cases hends.raises exc hfailure
    · obtain ⟨round, hround, hpauses, htries, hends⟩ := executeQuery_ends h₁
      split at h₂
      · next hpermanent =>
        obtain ⟨rfl, rfl, rfl⟩ := Effect.ends_pure h₂
        refine ⟨[], [round], rfl, by simp [hround],
          Or.inr ⟨round, _, _, exc, rfl, rfl, ?_, rfl, htries, hends, ?_⟩⟩
        · rw [List.append_nil, hpauses]
        · simpa using hpermanent
      · next hretryable =>
        obtain ⟨found, rounds, ms, rfl, hrounds, hms, hlow, hhigh, hfalls⟩ := retry_ends h₂
        refine ⟨found, round :: rounds, rfl, by simp [hround, hrounds],
          Or.inl ⟨.next htries hends hfalls, ?_, ?_, ?_⟩⟩
        · simp [hpauses, hms]
        · simp [hpauses, hms, hlow, hhigh]
        · intro _ later exc' hlater hfailure
          cases hlater
          cases hends.raises exc' hfailure
          simpa using hretryable

/-- A round of the ladder searches enabled indices, each at most once. -/
theorem ladder_once {round : Round} {requests : List SearchRequest} (h : round.Tries requests)
    (hrequests : requests ∈ ladder queryText skills limit task shared) :
    (round.map fun a => a.1.index) <+: enabledIndices task shared := by
  have hindices : requests.map SearchRequest.index = enabledIndices task shared := by
    unfold ladder at hrequests
    split at hrequests
    · cases hrequests
    · simp only [fullRequests, bm25Requests, List.mem_cons, List.not_mem_nil, or_false] at hrequests
      rcases hrequests with rfl | rfl | rfl <;> exact requestsOf_index _ _ _ _ _
  rw [← hindices]
  have hprefix := h.ordered.map SearchRequest.index
  rwa [List.map_map] at hprefix

/-- Only hits of enabled indices are ranked. -/
theorem ranking_enabled {round : Round}
    (h : (round.map fun a => a.1.index) <+: enabledIndices task shared) :
    ∀ f ∈ round.ranking limit, f.sourceIndex ∈ enabledIndices task shared := by
  intro f hf
  rw [Round.ranking] at hf
  have hmem := List.mem_mergeSort.mp (List.mem_of_mem_take hf)
  rcases List.mem_append.mp hmem with hf | hf
  · obtain ⟨hit, hhit, rfl⟩ := List.mem_map.mp hf
    exact h.subset (Round.mem_of_hits hhit)
  · obtain ⟨hit, hhit, rfl⟩ := List.mem_map.mp hf
    exact h.subset (Round.mem_of_hits hhit)

theorem ladder_length_le : (ladder queryText skills limit task shared).length ≤ 3 := by
  unfold ladder
  split
  · exact Nat.zero_le 3
  · exact Nat.le_refl 3

/-- The fallback ladder of a search, for every sequence of answers: it never raises, it makes
at most three rounds and at most one pause, it gives up at once on a permanent error of the
first round, and otherwise it gives the merged ranking of the first round that succeeds, provided
that the hits of this round are `Scored`. -/
theorem unifiedSearch_fallsBack {r : Except Exc (List Found)}
    (h : (unifiedSearch queryText skills limit task shared : WorkerM σ (List Found)).Ends s tr r s') :
    ∃ found rounds, r = .ok found ∧ searches tr = rounds.flatten ∧
      FallsBack queryText skills limit task shared rounds (pauses tr) found := by
  obtain ⟨found, rounds, rfl, hsearches, ⟨hfalls, hnaps, hms, hretryable⟩ |
    ⟨round, requests, later, exc, rfl, rfl, hnaps, hladder, htries, hends, hpermanent⟩⟩ :=
      unifiedSearch_falls h
  · refine ⟨found, rounds, rfl, hsearches, ?_⟩
    have honce : ∀ round ∈ rounds, (round.map fun a => a.1.index) <+: enabledIndices task shared := by
      intro round hround
      obtain ⟨requests, hrequests, htries⟩ := hfalls.tried round hround
      exact ladder_once htries hrequests
    exact {
      atMostThree := hfalls.length_le.trans ladder_length_le
      tries := hfalls.tries
      once := honce
      naps_le := ⟨hnaps, hms⟩
      permanent := by
        intro round later exc hrounds hfailure hexc
        rw [hretryable round later exc hrounds hfailure] at hexc
        cases hexc
      first := fun _ _ _ hrounds _ hround hscored => hfalls.first hrounds hround hscored
      none := by
        intro hfailed
        obtain ⟨hfound, hlength⟩ := hfalls.none hfailed
        exact ⟨hfound, Or.inl hlength⟩
      enabled := by
        rcases hfalls.found_eq with rfl | ⟨round, hround, rfl⟩
        · simp
        · exact ranking_enabled (honce round hround) }
  · refine ⟨[], [round], rfl, hsearches, ?_⟩
    exact {
      atMostThree := by simp
      tries := by
        rw [hladder]
        exact .cons htries .nil
      once := by
        intro round' hround'
        rw [List.mem_singleton.mp hround']
        exact ladder_once htries (by rw [hladder]; exact List.mem_cons_self)
      naps_le := by simp [hnaps]
      permanent := by
        intro round' later exc' hrounds _ _
        cases hrounds
        exact ⟨rfl, hnaps, rfl⟩
      first := by
        intro earlier round' later' hrounds _ hround' hscored
        cases earlier with
        | nil =>
          cases hrounds
          cases hends.ranks hround' hscored
        | cons _ earlier => cases earlier <;> cases hrounds
      none := by
        intro hfailed
        refine ⟨rfl, Or.inr ⟨round, exc, rfl, ?_, hpermanent⟩⟩
        cases hfailure : round.failure with
        | none => exact absurd hfailure (hfailed round List.mem_cons_self)
        | some exc' =>
          cases hends.raises exc' hfailure
          rfl
      enabled := by simp }

end Search

/-- Elasticsearch with one hit for each search but the second, which times out. -/
def timesOutOnce (n : Nat) : (o : WorkerOp) → o.Resp × Nat
  | .search _ => (if n = 1 then .error ⟨.connectionTimeout, "timed out"⟩ else .ok [⟨[], some 1⟩], n + 1)
  | o => (o.benign, n)

/-- The round that timed out after a hit is tried again as a whole. -/
theorem unifiedSearch_fallsBack_demo :
    let run := play timesOutOnce
      ((unifiedSearch "q" none 5 true true : WorkerM Unit (List Found)).start ()) 0
    ((searches run.1).length = 4 ∧ pauses run.1 = [50]) ∧
      ∃ found rounds, run.2.1.1 = .ok found ∧ searches run.1 = rounds.flatten ∧
        FallsBack "q" none 5 true true rounds (pauses run.1) found :=
  ⟨⟨rfl, rfl⟩, unifiedSearch_fallsBack (runs_play _ _ _)⟩

end BulletFarm.Worker
