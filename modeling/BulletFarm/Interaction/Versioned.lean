import Mathlib.Data.List.Basic

/-!
# One object under optimistic concurrency

The server keeps every version of the object; a client reads through a cache
that may lag but never goes back, and a write is accepted only when it is based
on the current version. When the only writer writes what it has read, its cache
is never more than one accepted write behind.
-/

namespace Interaction

set_option autoImplicit false

/-- The versions of an object, oldest first, and the number of the newest one
the client has been given. -/
structure Versioned (α : Type) where
  versions : List α
  seen : Nat
  nonempty : versions ≠ []
deriving DecidableEq

namespace Versioned

variable {α : Type}

/-- A new object that nobody has read. -/
def start (a : α) : Versioned α := ⟨[a], 0, by simp⟩

def current (s : Versioned α) : α := s.versions.getLast s.nonempty

/-- The number of the current version. -/
def latest (s : Versioned α) : Nat := s.versions.length - 1

/-- The cache may serve version `n`, which is `a`. -/
def Serves (s : Versioned α) (n : Nat) (a : α) : Prop :=
  s.seen ≤ n ∧ s.versions[n]? = some a

def read (s : Versioned α) (n : Nat) : Versioned α := { s with seen := n }

/-- A write based on version `n` is accepted. -/
def Accepts (s : Versioned α) (n : Nat) : Prop := n + 1 = s.versions.length

instance (s : Versioned α) (n : Nat) : Decidable (s.Accepts n) :=
  inferInstanceAs (Decidable (n + 1 = s.versions.length))

/-- A write that changes nothing makes no new version. -/
def write [DecidableEq α] (s : Versioned α) (a : α) : Versioned α :=
  if a = s.current then s
  else { s with versions := s.versions ++ [a], nonempty := by simp }

@[simp] theorem read_versions (s : Versioned α) (n : Nat) :
    (s.read n).versions = s.versions := rfl

@[simp] theorem read_seen (s : Versioned α) (n : Nat) : (s.read n).seen = n := rfl

@[simp] theorem start_versions (a : α) : (start a).versions = [a] := rfl

theorem current_congr {s s' : Versioned α} (h : s.versions = s'.versions) :
    s.current = s'.current := by
  unfold current
  simp only [h]

theorem length_pos (s : Versioned α) : 0 < s.versions.length :=
  List.length_pos_of_ne_nil s.nonempty

theorem current_eq_getElem? (s : Versioned α) : s.versions[s.latest]? = some s.current := by
  have h := s.length_pos
  rw [latest, current, List.getLast_eq_getElem, List.getElem?_eq_getElem (by omega)]

theorem current_mem (s : Versioned α) : s.current ∈ s.versions := List.getLast_mem s.nonempty

/-- What is read and then accepted as the base of a write is the current version. -/
theorem Accepts.current {s : Versioned α} {n : Nat} {a : α} (h : s.Accepts n)
    (ha : s.versions[n]? = some a) : s.current = a := by
  have hn : n = s.latest := by
    unfold Accepts at h
    unfold latest
    omega
  rw [hn, current_eq_getElem?] at ha
  exact Option.some.inj ha

section Write
variable [DecidableEq α]

theorem write_versions (s : Versioned α) (a : α) :
    (s.write a).versions = s.versions ∨ (s.write a).versions = s.versions ++ [a] := by
  unfold write
  split
  · exact Or.inl rfl
  · exact Or.inr rfl

@[simp] theorem write_seen (s : Versioned α) (a : α) : (s.write a).seen = s.seen := by
  unfold write
  split <;> rfl

@[simp] theorem write_current (s : Versioned α) (a : α) : (s.write a).current = a := by
  unfold write
  split
  · rename_i h
    exact h.symm
  · simp [current]

theorem write_versions_ne {s : Versioned α} {a : α} (h : a ≠ s.current) :
    (s.write a).versions ≠ s.versions := by
  intro heq
  have hlen := congrArg List.length heq
  simp [write, h] at hlen

theorem prefix_write (s : Versioned α) (a : α) : s.versions <+: (s.write a).versions := by
  rcases s.write_versions a with h | h
  · exact ⟨[], by rw [h, List.append_nil]⟩
  · exact ⟨[a], h.symm⟩

theorem getElem?_write {s : Versioned α} {n : Nat} {a b : α} (h : s.versions[n]? = some a) :
    (s.write b).versions[n]? = some a := by
  obtain ⟨hn, rfl⟩ := List.getElem?_eq_some_iff.mp h
  exact List.prefix_iff_getElem?.mp (s.prefix_write b) n hn

theorem getElem?_write_cases {s : Versioned α} {n : Nat} {a b : α}
    (h : (s.write b).versions[n]? = some a) : s.versions[n]? = some a ∨ a = b := by
  rcases s.write_versions b with hv | hv
  · exact Or.inl (hv ▸ h)
  · rw [hv, List.getElem?_append] at h
    split at h
    · exact Or.inl h
    · exact Or.inr (List.mem_singleton.mp (List.mem_of_getElem? h))

theorem mem_write {s : Versioned α} {a b : α} (h : b ∈ (s.write a).versions) :
    b ∈ s.versions ∨ b = a := by
  rcases s.write_versions a with h' | h'
  · exact Or.inl (h' ▸ h)
  · rw [h'] at h
    simpa using h

end Write

/-- Every version but the first is related to the one before it. -/
def Moves (move : α → α → Prop) (s : Versioned α) : Prop :=
  ∀ n a b, s.versions[n]? = some a → s.versions[n + 1]? = some b → move a b

/-- The cache is at most one version behind. -/
def Close (s : Versioned α) : Prop := s.latest ≤ s.seen + 1

theorem moves_start (move : α → α → Prop) (a : α) : Moves move (start a) := by
  intro n x y _ hy
  simp at hy

theorem close_start (a : α) : Close (start a) := by simp [Close, latest]

theorem Moves.read {move : α → α → Prop} {s : Versioned α} (h : Moves move s) (n : Nat) :
    Moves move (s.read n) := h

theorem Close.read {s : Versioned α} {n : Nat} (h : Close s) (hn : s.seen ≤ n) :
    Close (s.read n) := by
  change s.latest ≤ n + 1
  unfold Close at h
  omega

theorem Moves.write [DecidableEq α] {move : α → α → Prop} {s : Versioned α} (h : Moves move s)
    {a : α} (ha : move s.current a) : Moves move (s.write a) := by
  rcases s.write_versions a with hv | hv
  · unfold Moves
    rw [hv]
    exact h
  · intro n x y hx hy
    rw [hv] at hx hy
    rw [List.getElem?_append] at hx hy
    split at hy
    · rw [if_pos (by omega)] at hx
      exact h n x y hx hy
    · rename_i hn
      have hlast : n = s.latest := by
        by_contra hne
        have hpos := s.length_pos
        unfold latest at hne
        rw [List.getElem?_eq_none (by simp only [List.length_singleton]; omega)] at hy
        cases hy
      have hpos := s.length_pos
      have hlt : n < s.versions.length := by
        unfold latest at hlast
        omega
      rw [if_pos hlt, hlast, current_eq_getElem?] at hx
      have hzero : n + 1 - s.versions.length = 0 := by omega
      rw [hzero] at hy
      cases hx
      cases hy
      exact ha

/-- A writer that bases its writes on what it has read stays close. -/
theorem Close.write [DecidableEq α] {s : Versioned α} {n : Nat} {a : α} (hacc : s.Accepts n)
    (hn : n ≤ s.seen) : Close (s.write a) := by
  unfold Close latest
  unfold Accepts at hacc
  rw [write_seen]
  rcases s.write_versions a with hv | hv
  · rw [hv]
    omega
  · rw [hv, List.length_append, List.length_singleton]
    omega

theorem Moves.preserves {move : α → α → Prop} {s : Versioned α} (h : Moves move s)
    (keep : α → α → Prop) (hrefl : ∀ a, keep a a)
    (hstep : ∀ a b c, keep a b → move b c → keep a c) {i j : Nat} (hij : i ≤ j) {a b : α}
    (ha : s.versions[i]? = some a) (hb : s.versions[j]? = some b) : keep a b := by
  obtain ⟨d, rfl⟩ := Nat.le.dest hij
  induction d generalizing b with
  | zero =>
    rw [Nat.add_zero, ha] at hb
    cases hb
    exact hrefl a
  | succ d ih =>
    have hlast := (List.getElem?_eq_some_iff.mp hb).1
    have hlt : i + d < s.versions.length := by omega
    have hmid := List.getElem?_eq_getElem hlt
    exact hstep a _ b (ih (Nat.le_add_right i d) hmid) (h (i + d) _ _ hmid hb)

/-- An invariant of the first version that every move preserves holds of all. -/
theorem Moves.invariant {move : α → α → Prop} {s : Versioned α} (h : Moves move s)
    (inv : α → Prop) (hfirst : ∀ a, s.versions[0]? = some a → inv a)
    (hstep : ∀ a b, inv a → move a b → inv b) {a : α} (ha : a ∈ s.versions) : inv a := by
  obtain ⟨n, hn⟩ := List.getElem?_of_mem ha
  have hzero := List.getElem?_eq_getElem s.length_pos
  exact h.preserves (fun a b => inv a → inv b) (fun _ h => h)
    (fun x y z hxy hyz hx => hstep y z (hxy hx) hyz) (Nat.zero_le n) hzero hn (hfirst _ hzero)

/-! ## What arises -/

/-- After version `n` a version that satisfies `P` comes next to one that does not. -/
def Arises (P : α → Prop) (s : Versioned α) (n : Nat) : Prop :=
  ∃ m a b, n ≤ m ∧ s.versions[m]? = some a ∧ s.versions[m + 1]? = some b ∧ ¬ P a ∧ P b

section Arises
variable {P : α → Prop} {s : Versioned α} {n : Nat}

theorem Arises.mono {n' : Nat} (h : s.Arises P n') (hn : n ≤ n') : s.Arises P n := by
  obtain ⟨m, a, b, hm, h⟩ := h
  exact ⟨m, a, b, by omega, h⟩

/-- Nothing arises but by the write of a version that satisfies `P`. -/
theorem Arises.of_write [DecidableEq α] {a : α} (h : (s.write a).Arises P n) :
    s.Arises P n ∨ ¬ P s.current ∧ P a := by
  obtain ⟨m, b, c, hm, hb, hc, hnot, hP⟩ := h
  rcases s.write_versions a with hv | hv
  · rw [hv] at hb hc
    exact Or.inl ⟨m, b, c, hm, hb, hc, hnot, hP⟩
  rw [hv] at hb hc
  have hlength := (List.getElem?_eq_some_iff.mp hc).1
  rw [List.length_append, List.length_singleton] at hlength
  rw [List.getElem?_append_left (by omega)] at hb
  rcases Nat.lt_or_ge (m + 1) s.versions.length with hlt | hge
  · rw [List.getElem?_append_left hlt] at hc
    exact Or.inl ⟨m, b, c, hm, hb, hc, hnot, hP⟩
  · right
    have hlast : m = s.latest := by
      unfold latest
      omega
    rw [List.getElem?_append_right hge] at hc
    obtain rfl := List.mem_singleton.mp (List.mem_of_getElem? hc)
    rw [hlast, s.current_eq_getElem?] at hb
    cases hb
    exact ⟨hnot, hP⟩

theorem not_of_not_arises {a : α} (h : ¬ s.Arises P n) (ha : s.versions[n]? = some a) (hnot : ¬ P a)
    {m : Nat} (hm : n ≤ m) {b : α} (hb : s.versions[m]? = some b) : ¬ P b := by
  induction hm generalizing b with
  | refl =>
    rw [ha] at hb
    cases hb
    exact hnot
  | @step m hm ih =>
    have hlength := (List.getElem?_eq_some_iff.mp hb).1
    have hm' : m < s.versions.length := by omega
    have hprevious : s.versions[m]? = some s.versions[m] := List.getElem?_eq_getElem hm'
    exact fun hP => h ⟨m, _, b, hm, hprevious, hb, ih hprevious, hP⟩

theorem not_current_of_not_arises {a : α} (h : ¬ s.Arises P n) (ha : s.versions[n]? = some a)
    (hnot : ¬ P a) : ¬ P s.current := by
  have hn := (List.getElem?_eq_some_iff.mp ha).1
  have hm : n ≤ s.latest := by
    unfold latest
    omega
  exact not_of_not_arises h ha hnot hm s.current_eq_getElem?

end Arises

end Versioned

end Interaction
