import Mathlib.Algebra.BigOperators.Group.Finset.Piecewise
import Mathlib.Algebra.GroupWithZero.Nat
import Mathlib.Algebra.Order.BigOperators.Group.Finset

/-!
# A budget that holders share

A counter bounds what any number of holders have taken of a resource.  It is
the sum of what they hold, so it is zero when nobody holds anything.
-/

namespace CppContextEngine.Foundation

variable {ι : Type}

/-- A counter with its limit, and what each holder has of it. -/
structure SharedBudget (ι : Type) where
  limit : Nat
  used : Nat
  held : ι → Nat

namespace SharedBudget

def fresh (limit : Nat) : SharedBudget ι where
  limit := limit
  used := 0
  held _ := 0

variable [DecidableEq ι]

/-- What fits under the limit is taken. -/
def acquire (budget : SharedBudget ι) (holder : ι) (amount : Nat) : Option (SharedBudget ι) :=
  if budget.used + amount ≤ budget.limit then
    some { budget with
      used := budget.used + amount
      held := Function.update budget.held holder (budget.held holder + amount) }
  else none

/-- A holder gives back what it has. -/
def release (budget : SharedBudget ι) (holder : ι) : SharedBudget ι where
  limit := budget.limit
  used := budget.used - budget.held holder
  held := Function.update budget.held holder 0

/-- The counter says what the holders among `holders` have, and the others have nothing. -/
structure Balanced (budget : SharedBudget ι) (holders : Finset ι) : Prop where
  used_eq : budget.used = ∑ holder ∈ holders, budget.held holder
  used_le : budget.used ≤ budget.limit
  outside : ∀ holder, holder ∉ holders → budget.held holder = 0

variable {budget : SharedBudget ι} {holders : Finset ι} {holder : ι}

omit [DecidableEq ι] in
theorem balanced_fresh (limit : Nat) (holders : Finset ι) : (fresh limit).Balanced holders where
  used_eq := by simp [fresh]
  used_le := Nat.zero_le _
  outside _ _ := rfl

theorem limit_of_acquire {taken : SharedBudget ι} {amount : Nat}
    (htaken : budget.acquire holder amount = some taken) : taken.limit = budget.limit := by
  unfold acquire at htaken
  split at htaken
  · cases htaken
    rfl
  · cases htaken

/-- What one holder takes the others do not have. -/
theorem held_of_acquire {taken : SharedBudget ι} {amount : Nat}
    (htaken : budget.acquire holder amount = some taken) {other : ι} (hne : other ≠ holder) :
    taken.held other = budget.held other := by
  unfold acquire at htaken
  split at htaken
  · cases htaken
    simp [hne]
  · cases htaken

theorem Balanced.le (h : budget.Balanced holders) (holder : ι) :
    budget.held holder ≤ budget.used := by
  rw [h.used_eq]
  by_cases hmem : holder ∈ holders
  · exact Finset.single_le_sum (fun _ _ => Nat.zero_le _) hmem
  · rw [h.outside holder hmem]
    omega

theorem Balanced.acquire (h : budget.Balanced holders) (hmem : holder ∈ holders) {amount : Nat}
    {taken : SharedBudget ι} (htaken : budget.acquire holder amount = some taken) :
    taken.Balanced holders := by
  unfold SharedBudget.acquire at htaken
  split at htaken
  · rename_i hfits
    cases htaken
    exact
      { used_eq := by
          simp only [Finset.sum_update_of_mem hmem]
          rw [h.used_eq, ← Finset.add_sum_erase _ _ hmem, Finset.sdiff_singleton_eq_erase]
          omega
        used_le := hfits
        outside := by
          intro other hother
          have hne : other ≠ holder := fun heq => hother (heq ▸ hmem)
          simp [hne, h.outside other hother] }
  · cases htaken

/-- A release never takes more off the counter than there is. -/
theorem Balanced.release (h : budget.Balanced holders) (holder : ι) :
    (budget.release holder).Balanced holders where
  used_eq := by
    by_cases hmem : holder ∈ holders
    · simp only [SharedBudget.release, Finset.sum_update_of_mem hmem]
      rw [h.used_eq, ← Finset.add_sum_erase _ _ hmem, Finset.sdiff_singleton_eq_erase]
      omega
    · have hzero := h.outside holder hmem
      have hsame : Function.update budget.held holder 0 = budget.held := by
        rw [← hzero, Function.update_eq_self]
      simp [SharedBudget.release, hzero, hsame, h.used_eq]
  used_le := le_trans (Nat.sub_le _ _) h.used_le
  outside := by
    intro other hother
    by_cases hsame : other = holder
    · simp [SharedBudget.release, hsame]
    · simp [SharedBudget.release, hsame, h.outside other hother]

omit [DecidableEq ι] in
/-- A budget that nobody holds anything of is free. -/
theorem Balanced.used_eq_zero (h : budget.Balanced holders)
    (hnone : ∀ holder ∈ holders, budget.held holder = 0) : budget.used = 0 := by
  rw [h.used_eq, Finset.sum_eq_zero hnone]

end SharedBudget

end CppContextEngine.Foundation
