import BulletFarm.Interaction.Versioned

/-!
# Steps that are paid for

Where every step from one version to the next costs something and takes it from a
potential, all steps together cost no more than the potential of the first version.
-/

namespace Interaction

set_option autoImplicit false

variable {α : Type}

/-- What the steps from each element to the next cost together. -/
def totalCost (cost : α → α → Nat) : List α → Nat
  | a :: b :: rest => cost a b + totalCost cost (b :: rest)
  | _ => 0

section Cost
variable {cost : α → α → Nat} {potential : α → Nat}

theorem totalCost_le {l : List α} (hpay : ∀ (n : Nat) (a b : α), l[n]? = some a →
    l[n + 1]? = some b → cost a b + potential b ≤ potential a) {a : α} (ha : l[0]? = some a) :
    totalCost cost l ≤ potential a := by
  induction l generalizing a with
  | nil => exact Nat.zero_le _
  | cons x rest ih =>
    cases rest with
    | nil => exact Nat.zero_le _
    | cons y rest =>
      cases ha
      have hstep := hpay 0 x y rfl rfl
      have hrest : totalCost cost (y :: rest) ≤ potential y := by
        apply ih _ rfl
        intro n b c hb hc
        exact hpay (n + 1) b c hb hc
      rw [totalCost]
      omega

end Cost

/-- The versions of an object whose every move is paid for. -/
theorem Versioned.Moves.totalCost_le {move : α → α → Prop} {s : Versioned α} (h : s.Moves move)
    {cost : α → α → Nat} {potential : α → Nat}
    (hpay : ∀ a ∈ s.versions, ∀ b ∈ s.versions, move a b → cost a b + potential b ≤ potential a)
    {a : α} (ha : s.versions[0]? = some a) : totalCost cost s.versions ≤ potential a := by
  refine Interaction.totalCost_le (fun n a b hn hnext => ?_) ha
  exact hpay a (List.mem_of_getElem? hn) b (List.mem_of_getElem? hnext) (h n a b hn hnext)

end Interaction
