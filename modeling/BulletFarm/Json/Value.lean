import Mathlib.Data.List.Basic

/-!
# JSON values

A number is kept as the text of its literal, so that reading and writing it
loses nothing. The members of an object stay in the order of the text.
-/

namespace Json

set_option autoImplicit false

inductive Value where
  | null
  | bool (b : Bool)
  | num (literal : String)
  | str (s : String)
  | arr (items : List Value)
  | obj (members : List (String × Value))
deriving Inhabited, Repr

namespace Value

/-- What a key of an object stands for: the last member of that name counts. -/
def lookup (key : String) : List (String × Value) → Option Value
  | [] => none
  | (k, v) :: rest => (lookup key rest).or (if k = key then some v else none)

def asString : Value → Option String
  | .str s => some s
  | _ => none

@[simp] theorem lookup_nil (key : String) : lookup key [] = none := rfl

theorem lookup_cons (key k : String) (v : Value) (rest : List (String × Value)) :
    lookup key ((k, v) :: rest) = (lookup key rest).or (if k = key then some v else none) := rfl

theorem lookup_of_not_mem {key : String} {members : List (String × Value)}
    (h : key ∉ members.map Prod.fst) : lookup key members = none := by
  induction members with
  | nil => rfl
  | cons m rest ih =>
    obtain ⟨k, v⟩ := m
    simp only [List.map_cons, List.mem_cons, not_or] at h
    rw [lookup_cons, ih h.2, if_neg (Ne.symm h.1)]
    rfl

theorem lookup_eq_none {key : String} {members : List (String × Value)} :
    lookup key members = none ↔ key ∉ members.map Prod.fst := by
  constructor
  · intro h
    induction members with
    | nil => exact List.not_mem_nil
    | cons m rest ih =>
      obtain ⟨k, v⟩ := m
      obtain ⟨hrest, hk⟩ := Option.or_eq_none_iff.mp h
      rw [List.map_cons, List.mem_cons, not_or]
      refine ⟨?_, ih hrest⟩
      intro heq
      rw [if_pos heq.symm] at hk
      cases hk
  · exact lookup_of_not_mem

end Value

end Json
