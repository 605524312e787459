import Mathlib.Data.Set.Card
import Mathlib.Order.CompletePartialOrder
import Mathlib.Order.Monotone.Basic

/-!
# Ascending iterations

A monotone map on sets that starts below its own image ascends; bounded by a
finite set, it stops ascending.
-/

namespace CppContextEngine.Foundation

section Chain

variable {τ : Type} {Φ : Set τ → Set τ} {start bound : Set τ}

theorem iterate_ascends (hmono : Monotone Φ) (hstart : start ⊆ Φ start) :
    Monotone fun k => Φ^[k] start := by
  refine monotone_nat_of_le_succ fun k => ?_
  induction k with
  | zero => exact hstart
  | succ k ih =>
      simp only [Function.iterate_succ_apply'] at ih ⊢
      exact hmono ih

theorem nat_eventually_const {c : ℕ → ℕ} {bound : ℕ} (hmono : Monotone c)
    (hbound : ∀ k, c k ≤ bound) : ∃ k₀, ∀ k, k₀ ≤ k → c k = c k₀ := by
  have hexists : ∃ top, ∃ k₀, c k₀ = top ∧ ∀ k, c k ≤ top := by
    by_contra hnone
    push Not at hnone
    have hgrow : ∀ height, ∃ k, height ≤ c k := by
      intro height
      induction height with
      | zero => exact ⟨0, Nat.zero_le _⟩
      | succ height ih =>
          obtain ⟨k, hk⟩ := ih
          obtain ⟨k', hk'⟩ := hnone (c k) k rfl
          exact ⟨k', by omega⟩
    obtain ⟨k, hk⟩ := hgrow (bound + 1)
    have := hbound k
    omega
  obtain ⟨top, k₀, hk₀, htop⟩ := hexists
  exact ⟨k₀, fun k hk => le_antisymm (hk₀ ▸ htop k) (hmono hk)⟩

/-- An ascending iteration inside a finite set is constant from some step on. -/
theorem iterate_eventually_const (hmono : Monotone Φ) (hstart : start ⊆ Φ start)
    (hfinite : bound.Finite) (hbound : ∀ k, Φ^[k] start ⊆ bound) :
    ∃ k₀, ∀ k, k₀ ≤ k → Φ^[k] start = Φ^[k₀] start := by
  have hascends := iterate_ascends hmono hstart
  have hcard : Monotone fun k => (Φ^[k] start).ncard := fun k k' hk =>
    Set.ncard_le_ncard (hascends hk) (hfinite.subset (hbound k'))
  obtain ⟨k₀, hk₀⟩ := nat_eventually_const hcard fun k =>
    Set.ncard_le_ncard (hbound k) hfinite
  refine ⟨k₀, fun k hk => ?_⟩
  exact (Set.eq_of_subset_of_ncard_le (hascends hk) (hk₀ k hk).le
    (hfinite.subset (hbound k))).symm

/-- A step that changes nothing is the last one that changes anything. -/
theorem iterate_const_of_fixed {k : ℕ} {β : Type} {f : β → β} {b : β}
    (h : f^[k + 1] b = f^[k] b) : ∀ k', k ≤ k' → f^[k'] b = f^[k] b := by
  intro k' hk'
  induction k', hk' using Nat.le_induction with
  | base => rfl
  | succ k' _ ih => rw [Function.iterate_succ_apply', ih, ← Function.iterate_succ_apply' f, h]

end Chain

end CppContextEngine.Foundation
