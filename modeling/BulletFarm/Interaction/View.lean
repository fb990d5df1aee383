import BulletFarm.Interaction.Versioned

/-!
# Objects derived from another object

Several writers derive an object from a source that they read through one cache. Each
version of the object is cut from a version of the source. A writer that first reads the
object, then the source, and bases its write on what it has read, never cuts from an
older version of the source than the writes before it.
-/

namespace Interaction

set_option autoImplicit false

variable {α β : Type}

namespace Versioned

/-- `t` has every version of `s` in its place, and its cache is not behind that of `s`. -/
structure Grows (s t : Versioned α) : Prop where
  versions : s.versions <+: t.versions
  seen : s.seen ≤ t.seen

namespace Grows
variable {s t u : Versioned α}

theorem refl (s : Versioned α) : s.Grows s := ⟨List.prefix_rfl, Nat.le_refl _⟩

theorem trans (h : s.Grows t) (h' : t.Grows u) : s.Grows u :=
  ⟨h.versions.trans h'.versions, Nat.le_trans h.seen h'.seen⟩

theorem getElem? (h : s.Grows t) {n : Nat} {a : α} (ha : s.versions[n]? = some a) :
    t.versions[n]? = some a := by
  obtain ⟨hn, rfl⟩ := List.getElem?_eq_some_iff.mp ha
  exact List.prefix_iff_getElem?.mp h.versions n hn

theorem write [DecidableEq α] (s : Versioned α) (a : α) : s.Grows (s.write a) :=
  ⟨s.prefix_write a, (Nat.le_of_eq (write_seen s a).symm)⟩

theorem read (s : Versioned α) {n : Nat} (hn : s.seen ≤ n) : s.Grows (s.read n) :=
  ⟨List.prefix_rfl, hn⟩

end Grows

/-- What the cache shows. -/
def Shows (s : Versioned α) (a : α) : Prop := s.versions[s.seen]? = some a

end Versioned

/-- Every version of the object after the first is right for the version of the source it
was cut from, and the cuts never go back. -/
structure Derives (right : α → β → Prop) (source : Versioned α) (object : Versioned β)
    (cuts : List Nat) : Prop where
  length : cuts.length + 1 = object.versions.length
  sorted : cuts.Pairwise (· ≤ ·)
  seen : ∀ n ∈ cuts, n ≤ source.seen
  right : ∀ (j n : Nat) (b : β), cuts[j]? = some n → object.versions[j + 1]? = some b →
    ∃ a, source.versions[n]? = some a ∧ right a b

namespace Derives
variable {right : α → β → Prop} {source source' : Versioned α} {object : Versioned β}
  {cuts : List Nat}

theorem start (right : α → β → Prop) (source : Versioned α) (b : β) :
    Derives right source (Versioned.start b) [] := by
  refine ⟨rfl, List.Pairwise.nil, ?_, ?_⟩
  · intro n hn
    cases hn
  · intro j n b hn
    cases hn

theorem grows (h : Derives right source object cuts) (hsource : source.Grows source') :
    Derives right source' object cuts := by
  refine ⟨h.length, h.sorted, fun n hn => Nat.le_trans (h.seen n hn) hsource.seen, ?_⟩
  intro j n b hn hb
  obtain ⟨a, ha, hright⟩ := h.right j n b hn hb
  exact ⟨a, hsource.getElem? ha, hright⟩

/-- The cuts of all versions up to a version of the object. -/
theorem take_eq (h : Derives right source object cuts) {n : Nat} (hacc : object.Accepts n) :
    cuts.take n = cuts := by
  have hlength := h.length
  unfold Versioned.Accepts at hacc
  exact List.take_of_length_le (by omega)

/-- An accepted write that is based on version `n`, cut no earlier than the versions up to `n`. -/
theorem write [DecidableEq β] (h : Derives right source object cuts) {n cut : Nat} {a : α} {b : β}
    (hacc : object.Accepts n) (hbase : ∀ m ∈ cuts.take n, m ≤ cut) (hcut : cut ≤ source.seen)
    (ha : source.versions[cut]? = some a) (hright : right a b) :
    Derives right source (object.write b) (if b = object.current then cuts else cuts ++ [cut]) := by
  unfold Versioned.write
  split
  · exact h
  rw [h.take_eq hacc] at hbase
  have hlength := h.length
  refine ⟨?_, ?_, ?_, ?_⟩
  · simp only [List.length_append, List.length_singleton]
    omega
  · refine List.pairwise_append.mpr ⟨h.sorted, List.pairwise_singleton _ _, ?_⟩
    intro m hm m' hm'
    rw [List.mem_singleton.mp hm']
    exact hbase m hm
  · intro m hm
    rcases List.mem_append.mp hm with hm | hm
    · exact h.seen m hm
    · rw [List.mem_singleton.mp hm]
      exact hcut
  · intro j m b' hm hb'
    rcases Nat.lt_or_ge j cuts.length with hlt | hge
    · rw [List.getElem?_append_left hlt] at hm
      rw [List.getElem?_append_left (by omega)] at hb'
      exact h.right j m b' hm hb'
    · rw [List.getElem?_append_right hge] at hm
      rw [List.getElem?_append_right (by omega)] at hb'
      obtain rfl := List.mem_singleton.mp (List.mem_of_getElem? hm)
      obtain rfl := List.mem_singleton.mp (List.mem_of_getElem? hb')
      exact ⟨a, ha, hright⟩

end Derives

end Interaction
