import Mathlib.Data.List.MinMax
import BulletFarm.Worker.Routes

/-!
# Graduating a task again

The operator repeats a graduate request when its status write fails. A graduation stores its
document first and deletes the task's documents afterwards. A deletion that is not carried out
in full goes unnoticed, and one that is may not show in the next search yet: either way the next
request can find the result again and store it again.
-/

namespace BulletFarm.Worker

open Interaction Python

set_option autoImplicit false

/-- A graduate request: the tasks of the worker that gets it, and how its calls go. The search is
`current` when it sees all that was written and deleted before, and the request `deletes` when its
deletion, if it comes to one, leaves no document of the task. -/
structure GraduateRequest where
  statuses : String → Option TaskStatus
  search : Fault
  current : Bool
  store : Fault
  deletes : Bool

section Requests
variable {α : Type} [LinearOrder α] (timestamp : Dict → α) (taskID : String)

/-- The search for the task's result is sorted: no Succeeded document of the task that it sees is
younger than its hit. -/
def FindsNewest (seen : Elastic) (tr : List (Event WorkerOp.Resp)) : Prop :=
  ∀ h hits, ⟨.search (taskResultRequest taskID), .ok (h :: hits)⟩ ∈ tr →
    ∀ d ∈ seen taskMemoryIndex, succeededOf taskID d = true → timestamp d ≤ timestamp h.source

/-- One request takes the indices from `w` to `w'`. -/
def Graduation (q : GraduateRequest) (w w' : Indices) : Prop :=
  ∃ seen deletion tr r es', w.Shows seen ∧ (q.current = true → seen = w.now) ∧
    (q.deletes = true → deletion.Full taskID w.now) ∧
    (graduateTask q.statuses taskID : WorkerM Unit _).Ends () tr r () ∧
    Threads (Elastic.Serve ⟨q.search, q.store, deletion⟩ seen) w.now tr es' ∧
    FindsNewest timestamp taskID seen tr ∧ w' = w.next es'

/-- One request after the other. -/
inductive Graduations : Indices → List GraduateRequest → Indices → Prop where
  | nil (w : Indices) : Graduations w [] w
  | cons {w w₁ w₂ : Indices} {q : GraduateRequest} {qs : List GraduateRequest} :
      Graduation timestamp taskID q w w₁ → Graduations w₁ qs w₂ → Graduations w (q :: qs) w₂

end Requests

/-! ## When a document is stored twice -/

/-- `graduate_to_shared` can make a document of this result. -/
def Graduable (d : Dict) : Prop := ∃ k, graduationKnowledge d "merged" = .ok k

namespace GraduateRequest

/-- The worker knows the task, the search works, and the store is not refused. -/
def Stores (taskID : String) (q : GraduateRequest) : Prop :=
  q.statuses taskID ≠ none ∧ q.search = .works ∧ q.store ≠ .refused

/-- The worker knows the task, the deletion is carried out in full, and nothing raises before it. -/
def Clears (taskID : String) (q : GraduateRequest) : Prop :=
  q.statuses taskID ≠ none ∧ q.deletes = true ∧ (q.search = .works → q.store = .works)

/-- A Succeeded document of the task that the search may find: one that is there or, when the
search is not current, one that has been there. -/
structure MayFind (taskID : String) (w : Indices) (q : GraduateRequest) (d : Dict) : Prop where
  held : w.Held taskMemoryIndex d
  there : q.current = true → d ∈ w.now taskMemoryIndex
  succeeded : succeededOf taskID d = true

def MayStore (taskID : String) (w : Indices) (q : GraduateRequest) : Prop :=
  q.Stores taskID ∧ ∃ d, q.MayFind taskID w d ∧ Graduable d

/-- The request may leave documents of the task where they are: it does not clear them, or its
search may find a result that no document can be made of. -/
def Spares (taskID : String) (w : Indices) (q : GraduateRequest) : Prop :=
  q.Clears taskID → q.search = .works ∧ ∃ d, q.MayFind taskID w d ∧ ¬ Graduable d

end GraduateRequest

open GraduateRequest

/-- Two of the requests may store. Where the search of one is current, the documents of the task
may still be there when it comes. -/
def StoresTwice (taskID : String) (w : Indices) (qs : List GraduateRequest) : Prop :=
  ∃ before first between second after, qs = before ++ first :: (between ++ second :: after) ∧
    first.MayStore taskID w ∧ second.MayStore taskID w ∧
    (first.current = true → ∀ q ∈ before, q.Spares taskID w) ∧
    (second.current = true →
      (∀ q ∈ before, q.Spares taskID w) ∧ ∀ q ∈ first :: between, ¬ q.Clears taskID)

/-- A document can be made of every Succeeded document of the task. -/
def AllGraduable (taskID : String) (w : Indices) : Prop :=
  ∀ d, w.Held taskMemoryIndex d → succeededOf taskID d = true → Graduable d

/-- So it is where runs have written them. -/
theorem allGraduable_of_runs {taskID : String} {w : Indices}
    (hruns : ∀ d, w.Held taskMemoryIndex d → succeededOf taskID d = true →
      ∃ (b : MemoryWriteBuffer) (stamp : Time) (doc : Dict), RunDocument doc ∧
        d = b.taskDocument stamp doc) : AllGraduable taskID w := by
  intro d hd hsucceeded
  obtain ⟨b, stamp, doc, hdoc, rfl⟩ := hruns d hd hsucceeded
  have hphase : hasTerm "phase" "Succeeded" (b.taskDocument stamp doc) = true := by
    unfold succeededOf at hsucceeded
    rw [Bool.and_eq_true] at hsucceeded
    exact hsucceeded.2
  exact hdoc.graduates b stamp hphase "merged"

/-- A document can be made of all Succeeded documents of the task, or of none. -/
def Uniform (taskID : String) (w : Indices) : Prop :=
  (∃ d, w.Held taskMemoryIndex d ∧ succeededOf taskID d = true ∧ Graduable d) → AllGraduable taskID w

/-! ## Whether a document can be made of a result -/

theorem isOk_bind_congr {α β : Type} {x : Except Exc α} {f g : α → Except Exc β}
    (h : ∀ a, (f a).isOk = (g a).isOk) : (x >>= f).isOk = (x >>= g).isOk := by
  cases x with
  | ok a => exact h a
  | error e => rfl

theorem isOk_ite_congr {α : Type} {c : Prop} [Decidable c] {x x' y y' : Except Exc α}
    (hx : x.isOk = y.isOk) (hx' : x'.isOk = y'.isOk) :
    (if c then x else x').isOk = (if c then y else y').isOk := by
  split
  · exact hx
  · exact hx'

/-- The state of the pull request is only quoted. -/
theorem graduationKnowledge_isOk (d : Dict) (prState prState' : String) :
    (graduationKnowledge d prState).isOk = (graduationKnowledge d prState').isOk := by
  unfold graduationKnowledge
  apply isOk_bind_congr
  intro shortPrompt
  apply isOk_bind_congr
  intro filesCount
  apply isOk_bind_congr
  intro toolsCount
  have hfiles : ∀ {f g : String → Except Exc Knowledge}, (∀ text, (f text).isOk = (g text).isOk) →
      (if truthy (Dict.get d "files_modified" (.arr [])) = true then do
        let first ← slice 20 (Dict.get d "files_modified" (.arr []))
        let text ← joinValue ", " first
        f text
      else do
        let text ← pure "none"
        f text : Except Exc Knowledge).isOk =
      (if truthy (Dict.get d "files_modified" (.arr [])) = true then do
        let first ← slice 20 (Dict.get d "files_modified" (.arr []))
        let text ← joinValue ", " first
        g text
      else do
        let text ← pure "none"
        g text : Except Exc Knowledge).isOk := by
    intro f g hfg
    apply isOk_ite_congr
    · exact isOk_bind_congr fun _ => isOk_bind_congr hfg
    · exact isOk_bind_congr hfg
  apply isOk_ite_congr
  · exact isOk_bind_congr fun _ => hfiles fun _ => isOk_bind_congr fun _ => rfl
  · exact isOk_bind_congr fun _ => hfiles fun _ => isOk_bind_congr fun _ => rfl

theorem graduable_iff {d : Dict} (prState : String) :
    Graduable d ↔ ∃ k, graduationKnowledge d prState = .ok k := by
  have hisOk : ∀ x : Except Exc Knowledge, (∃ k, x = .ok k) ↔ x.isOk = true := by
    intro x
    cases x with
    | ok k => exact iff_of_true ⟨k, rfl⟩ rfl
    | error e => exact iff_of_false (fun ⟨_, h⟩ => by cases h) (fun h => by cases h)
  rw [Graduable, hisOk, hisOk, graduationKnowledge_isOk]

/-! ## One request -/

/-- What a request can do. -/
inductive Outcome (taskID : String) (q : GraduateRequest) (w : Indices) (es' : Elastic) : Prop where
  | nothing : es' sharedMemoryIndex = w.now sharedMemoryIndex →
      ((∀ d ∈ es' taskMemoryIndex, ofTask taskID d = false) ∨ q.Spares taskID w) →
      Outcome taskID q w es'
  | stored (doc : Dict) : q.MayStore taskID w →
      (q.Clears taskID → ∀ d ∈ es' taskMemoryIndex, ofTask taskID d = false) →
      es' sharedMemoryIndex = w.now sharedMemoryIndex ++ [doc] → Outcome taskID q w es'

section Requests
variable {α : Type} [LinearOrder α] {timestamp : Dict → α} {taskID : String} {q : GraduateRequest}
  {w w' : Indices}

theorem Graduation.task (h : Graduation timestamp taskID q w w') :
    ∀ d ∈ w'.now taskMemoryIndex, d ∈ w.now taskMemoryIndex := by
  obtain ⟨_, _, _, _, es', _, _, _, hend, hes, _, rfl⟩ := h
  exact (graduateTask_moves hend hes).2

theorem Graduation.grows (h : Graduation timestamp taskID q w w') :
    (w.now sharedMemoryIndex).length ≤ (w'.now sharedMemoryIndex).length := by
  obtain ⟨_, _, _, _, es', _, _, _, hend, hes, _, rfl⟩ := h
  obtain ⟨added, hadded⟩ := (graduateTask_moves hend hes).1
  change _ ≤ (es' sharedMemoryIndex).length
  rw [hadded, List.length_append]
  omega

theorem Graduation.held (h : Graduation timestamp taskID q w w') {index : String} {d : Dict}
    (hd : w.Held index d) : w'.Held index d := by
  obtain ⟨_, _, _, _, es', _, _, _, _, _, _, rfl⟩ := h
  exact hd.next es'

/-- What the memory of the tasks will have held, it has held already. -/
theorem Graduation.held_before (h : Graduation timestamp taskID q w w') {d : Dict}
    (hd : w'.Held taskMemoryIndex d) : w.Held taskMemoryIndex d := by
  have htask := h.task
  obtain ⟨_, _, _, _, es', _, _, _, _, _, _, rfl⟩ := h
  obtain ⟨before, hbefore, hmem⟩ := hd
  rcases List.mem_cons.mp hbefore with rfl | hbefore
  · exact .now (htask d hmem)
  · exact ⟨before, hbefore, hmem⟩

theorem GraduateRequest.MayFind.before {p : GraduateRequest} {d : Dict}
    (h : p.MayFind taskID w' d) (hstep : Graduation timestamp taskID q w w') : p.MayFind taskID w d where
  held := hstep.held_before h.held
  there hcurrent := hstep.task d (h.there hcurrent)
  succeeded := h.succeeded

theorem GraduateRequest.MayStore.before {p : GraduateRequest} (h : p.MayStore taskID w')
    (hstep : Graduation timestamp taskID q w w') : p.MayStore taskID w := by
  obtain ⟨hstores, d, hfind, hgraduable⟩ := h
  exact ⟨hstores, d, hfind.before hstep, hgraduable⟩

theorem GraduateRequest.Spares.before {p : GraduateRequest} (h : p.Spares taskID w')
    (hstep : Graduation timestamp taskID q w w') : p.Spares taskID w := by
  intro hclears
  obtain ⟨hsearch, d, hfind, hnot⟩ := h hclears
  exact ⟨hsearch, d, hfind.before hstep, hnot⟩

/-- A current search finds nothing of the task once its documents are gone. -/
theorem GraduateRequest.MayStore.not_cleared (h : q.MayStore taskID w) (hcurrent : q.current = true) :
    ¬ ∀ d ∈ w.now taskMemoryIndex, ofTask taskID d = false := by
  obtain ⟨_, d, hfind, _⟩ := h
  intro hcleared
  have hof := hcleared d (hfind.there hcurrent)
  rw [ofTask_of_succeededOf hfind.succeeded] at hof
  cases hof

theorem Graduation.outcome (h : Graduation timestamp taskID q w w') : Outcome taskID q w w'.now := by
  obtain ⟨seen, deletion, tr, r, es', hshows, hcurrent, hfull, hend, hes, _, rfl⟩ := h
  change Outcome taskID q w es'
  rcases graduateTask_ends hend hes with
    ⟨hunknown, rfl, _⟩ | ⟨hknown, prState, tr₁, tr₂, b, rfl, hshared, hes₂, _⟩
  · exact .nothing rfl (Or.inr fun hclears => absurd hunknown hclears.1)
  · cases graduateToShared_ends hshared hes₂ with
    | nothing _ _ hremoves =>
      refine .nothing hremoves.shared ?_
      by_cases hdeletes : q.deletes = true
      · exact Or.inl (hremoves.cleared_iff.mpr (hfull hdeletes))
      · exact Or.inr fun hclears => absurd hclears.2.1 hdeletes
    | @result d _ _ _ _ hsearch hmem hsucceeded _ hends =>
      have hfind : q.MayFind taskID w d :=
        ⟨hshows _ d hmem, fun h => hcurrent h ▸ hmem, hsucceeded⟩
      have hmay : ∀ k, graduationKnowledge d prState = .ok k → q.store ≠ .refused →
          q.MayStore taskID w :=
        fun k hk hstore => ⟨⟨hknown, hsearch, hstore⟩, d, hfind, (graduable_iff prState).mpr ⟨k, hk⟩⟩
      cases hends with
      | unfit he =>
        refine .nothing rfl (Or.inr fun _ => ⟨hsearch, d, hfind, fun hgraduable => ?_⟩)
        obtain ⟨k, hk⟩ := (graduable_iff prState).mp hgraduable
        rw [hk] at he
        cases he
      | refused _ hrefused =>
        refine .nothing rfl (Or.inr fun hclears => ?_)
        have hworks := hclears.2.2 hsearch
        rw [hworks] at hrefused
        cases hrefused
      | lost hk hlost =>
        have hlost' : q.store = .lost := hlost
        refine .stored _ (hmay _ hk (by rw [hlost']; decide)) (fun hclears => ?_) (add_shared_shared _ _)
        have hworks := hclears.2.2 hsearch
        rw [hworks] at hlost'
        cases hlost'
      | stored hk hworks _ _ hremoves =>
        have hworks' : q.store = .works := hworks
        refine .stored _ (hmay _ hk (by rw [hworks']; decide)) (fun hclears => ?_)
          (hremoves.shared.trans (add_shared_shared _ _))
        exact hremoves.cleared_iff.mpr ((hfull hclears.2.1).addShared _)

end Requests

/-! ## One request after the other -/

section Sequence
variable {α : Type} [LinearOrder α] {timestamp : Dict → α} {taskID : String}
  {qs : List GraduateRequest} {w w' : Indices}

/-- If something is stored, one of the requests may store, and if its search is current none
before it clears. -/
theorem Graduations.stores (h : Graduations timestamp taskID w qs w')
    (hmore : (w.now sharedMemoryIndex).length < (w'.now sharedMemoryIndex).length) :
    ∃ between second after, qs = between ++ second :: after ∧ second.MayStore taskID w ∧
      (second.current = true → ∀ q ∈ between, ¬ q.Clears taskID) := by
  induction h with
  | nil w => exact absurd hmore (Nat.lt_irrefl _)
  | @cons w w₁ w₂ q qs hfirst hrest ih =>
    cases hfirst.outcome with
    | stored _ hmay _ _ => exact ⟨[], q, qs, rfl, hmay, fun _ p hp => by cases hp⟩
    | nothing hshared hleft =>
      rw [← hshared] at hmore
      obtain ⟨between, second, after, rfl, hmay, hkept⟩ := ih hmore
      by_cases hcurrent : second.current = true
      · by_cases hclears : q.Clears taskID
        · -- it has raised instead, and might as well have stored
          obtain ⟨hsearch, _⟩ := (hleft.resolve_left (hmay.not_cleared hcurrent)) hclears
          obtain ⟨_, d, hfind, hgraduable⟩ := hmay
          refine ⟨[], q, between ++ second :: after, rfl, ⟨⟨hclears.1, hsearch, ?_⟩, d, ?_, hgraduable⟩,
            fun _ p hp => by cases hp⟩
          · rw [hclears.2.2 hsearch]
            decide
          · have hthere := hfirst.task d (hfind.there hcurrent)
            exact ⟨.now hthere, fun _ => hthere, hfind.succeeded⟩
        · exact ⟨q :: between, second, after, rfl, hmay.before hfirst,
            fun h => List.forall_mem_cons.mpr ⟨hclears, hkept h⟩⟩
      · exact ⟨q :: between, second, after, rfl, hmay.before hfirst, fun h => absurd h hcurrent⟩

theorem Graduations.stores_twice (h : Graduations timestamp taskID w qs w')
    (hmore : (w.now sharedMemoryIndex).length + 1 < (w'.now sharedMemoryIndex).length) :
    StoresTwice taskID w qs := by
  induction h with
  | nil w => omega
  | @cons w w₁ w₂ q qs hfirst hrest ih =>
    cases hfirst.outcome with
    | nothing hshared hleft =>
      rw [← hshared] at hmore
      obtain ⟨before, first, between, second, after, rfl, hfirst', hsecond, hearly, hlate⟩ := ih hmore
      refine ⟨q :: before, first, between, second, after, rfl, hfirst'.before hfirst,
        hsecond.before hfirst, fun hcurrent => ?_, fun hcurrent => ?_⟩
      · exact List.forall_mem_cons.mpr ⟨hleft.resolve_left (hfirst'.not_cleared hcurrent),
          fun p hp => (hearly hcurrent p hp).before hfirst⟩
      · obtain ⟨hspares, hkept⟩ := hlate hcurrent
        exact ⟨List.forall_mem_cons.mpr ⟨hleft.resolve_left (hsecond.not_cleared hcurrent),
          fun p hp => (hspares p hp).before hfirst⟩, hkept⟩
    | stored doc hmay hclear hshared =>
      have hlater : (w₁.now sharedMemoryIndex).length < (w₂.now sharedMemoryIndex).length := by
        rw [hshared, List.length_append, List.length_singleton]
        exact hmore
      obtain ⟨between, second, after, rfl, hsecond, hkept⟩ := hrest.stores hlater
      refine ⟨[], q, between, second, after, rfl, hmay, hsecond.before hfirst,
        fun _ p hp => absurd hp List.not_mem_nil,
        fun hcurrent => ⟨fun p hp => absurd hp List.not_mem_nil, ?_⟩⟩
      refine List.forall_mem_cons.mpr ⟨fun hclears => ?_, hkept hcurrent⟩
      exact hsecond.not_cleared hcurrent (hclear hclears)

end Sequence

end BulletFarm.Worker
