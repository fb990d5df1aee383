import BulletFarm.Order.TopK
import BulletFarm.Worker.Memory

/-!
# The ranking of two truncated hit lists

Each index is asked for no more hits than are wanted in all, and the two answers are ranked
together. Nothing is lost by that.
-/

namespace BulletFarm.Worker

set_option autoImplicit false

/-- The hits of an index, each tagged with it. -/
def tagged (index : String) (hits : List Hit) : List Found :=
  hits.map fun h => ⟨h.source, h.score, index⟩

/-- What a hit is ranked by. -/
def Found.rank (f : Found) : Rat := f.score.getD 0

/-- Higher scores go first. -/
def Found.before (f g : Found) : Bool := g.rank ≤ f.rank

/-- The order in which Elasticsearch gives its hits. -/
def Descending (hits : List Hit) : Prop := hits.Pairwise fun h k => k.score.getD 0 ≤ h.score.getD 0

variable {f g : Found} {task shared : List Hit}

@[simp] theorem before_iff : f.before g ↔ g.rank ≤ f.rank := decide_eq_true_iff

theorem before_trans (f g h : Found) (hfg : f.before g) (hgh : g.before h) : f.before h := by
  rw [before_iff] at *
  exact Rat.le_trans hgh hfg

theorem before_total (f g : Found) : f.before g || g.before f := by
  rw [Bool.or_eq_true, before_iff, before_iff]
  exact Rat.le_total

theorem mergeAndRankResults_eq (task shared : List Hit) (limit : Int) :
    mergeAndRankResults task shared limit =
      Python.upTo limit ((tagged "task_memory" task ++ tagged "shared_memory" shared).mergeSort
        Found.before) := rfl

theorem tagged_take (index : String) (hits : List Hit) (k : Nat) :
    tagged index (hits.take k) = (tagged index hits).take k := List.map_take

theorem Descending.tagged (h : Descending task) (index : String) :
    (tagged index task).Pairwise fun f g => f.before g := by
  unfold BulletFarm.Worker.tagged
  rw [List.pairwise_map]
  refine List.Pairwise.imp ?_ h
  intro h k hle
  exact before_iff.mpr hle

theorem mergeAndRankResults_take (htask : Descending task) (hshared : Descending shared) (limit : Nat) :
    mergeAndRankResults (task.take limit) (shared.take limit) limit =
      ((tagged "task_memory" task ++ tagged "shared_memory" shared).mergeSort Found.before).take
        limit := by
  rw [mergeAndRankResults_eq, Python.upTo_natCast, tagged_take, tagged_take]
  exact Order.take_mergeSort_append before_trans before_total (htask.tagged _) (hshared.tagged _) limit

/-- Ranking the first `limit` hits of each index gives the first `limit` of the stable ranking
of all of them: as many as there can be, the best ones, and on a tie those of the task memory
first, each index in its own order. -/
theorem truncation_loses_nothing (htask : Descending task) (hshared : Descending shared) (limit : Nat) :
    let all := tagged "task_memory" task ++ tagged "shared_memory" shared
    let ranked := mergeAndRankResults (task.take limit) (shared.take limit) limit
    ranked = (all.mergeSort Found.before).take limit ∧
      ranked.length = min limit (task.length + shared.length) ∧
      ranked.Pairwise (fun f g => g.rank ≤ f.rank) ∧
      (∃ omitted, (ranked ++ omitted).Perm all ∧ ∀ f ∈ ranked, ∀ g ∈ omitted, g.rank ≤ f.rank) ∧
      ∀ q : Rat, (ranked.filter fun f => f.rank = q) <+:
        ((tagged "task_memory" task).filter fun f => f.rank = q) ++
          (tagged "shared_memory" shared).filter fun f => f.rank = q := by
  intro all ranked
  have hranked : ranked = (all.mergeSort Found.before).take limit :=
    mergeAndRankResults_take htask hshared limit
  have hsorted := List.pairwise_mergeSort before_trans before_total all
  refine ⟨hranked, ?_, ?_, ⟨(all.mergeSort Found.before).drop limit, ?_, ?_⟩, ?_⟩
  · rw [hranked, List.length_take, List.length_mergeSort, List.length_append]
    simp [tagged]
  · rw [hranked]
    exact (hsorted.sublist (List.take_sublist _ _)).imp fun hle => before_iff.mp hle
  · rw [hranked, List.take_append_drop]
    exact List.mergeSort_perm all Found.before
  · intro f hf g hg
    rw [hranked] at hf
    exact before_iff.mp (Order.le_of_take_drop hsorted hf hg)
  · intro q
    have htied : ∀ f g : Found, decide (f.rank = q) → decide (g.rank = q) → f.before g := by
      intro f g hf hg
      have hrank : g.rank = f.rank := (of_decide_eq_true hg).trans (of_decide_eq_true hf).symm
      exact before_iff.mpr (hrank ▸ Rat.le_refl)
    have hall : (all.mergeSort Found.before).filter (fun f => decide (f.rank = q)) = all.filter _ :=
      Order.filter_mergeSort before_trans before_total htied
    rw [← List.filter_append, ← hall, hranked]
    exact (List.take_prefix limit _).filter _

/-- Three hits of one score, of which two are wanted. -/
theorem truncation_loses_nothing_demo :
    let ranked := mergeAndRankResults (([⟨[], some 2⟩, ⟨[], some 1⟩, ⟨[], some 1⟩] : List Hit).take 2)
      (([⟨[], some 2⟩, ⟨[], some 2⟩] : List Hit).take 2) (2 : Nat)
    ranked.length = 2 ∧ ranked.Pairwise fun f g => g.rank ≤ f.rank := by
  have htask : Descending [⟨[], some 2⟩, ⟨[], some 1⟩, ⟨[], some 1⟩] := by
    unfold Descending
    decide
  have hshared : Descending [⟨[], some 2⟩, ⟨[], some 2⟩] := by
    unfold Descending
    decide
  obtain ⟨_, hlength, hsorted, _⟩ := truncation_loses_nothing htask hshared 2
  exact ⟨hlength, hsorted⟩

end BulletFarm.Worker
