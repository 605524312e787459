import Mathlib.Data.Fintype.Powerset
import Mathlib.Data.Set.Finite.Lattice
import Mathlib.Order.OrderIsoNat

/-!
# Chains of finitely many facts

A chain of sets of facts that all come from one finite set is constant from some
point on, and so are its squeezed neighbours.
-/

namespace CppContextEngine.Foundation

section Chains

variable {φ : Type} {facts : Nat → Set φ} {all : Set φ}

theorem growing_settles (hfinite : all.Finite) (hwithin : ∀ count, facts count ⊆ all)
    (hgrow : ∀ count, facts count ⊆ facts (count + 1)) :
    ∃ enough, ∀ count ≥ enough, facts count = facts enough := by
  have : Finite {set : Set φ // set ⊆ all} := hfinite.finite_subsets
  let chain : Nat →o {set : Set φ // set ⊆ all} :=
    ⟨fun count => ⟨facts count, hwithin count⟩, monotone_nat_of_le_succ hgrow⟩
  obtain ⟨enough, hconst⟩ := WellFoundedGT.monotone_chain_condition chain
  exact ⟨enough, fun count hcount => (congrArg Subtype.val (hconst count hcount)).symm⟩

theorem shrinking_settles (hfinite : all.Finite) (hwithin : ∀ count, facts count ⊆ all)
    (hshrink : ∀ count, facts (count + 1) ⊆ facts count) :
    ∃ enough, ∀ count ≥ enough, facts count = facts enough := by
  have hgrow : ∀ count, all \ facts count ⊆ all \ facts (count + 1) := fun count =>
    Set.sdiff_subset_sdiff_right (hshrink count)
  obtain ⟨enough, hconst⟩ := growing_settles hfinite (fun _ => Set.sdiff_subset) hgrow
  refine ⟨enough, fun count hcount => ?_⟩
  rw [← Set.sdiff_sdiff_cancel_left (hwithin count), hconst count hcount,
    Set.sdiff_sdiff_cancel_left (hwithin enough)]

end Chains

end CppContextEngine.Foundation
