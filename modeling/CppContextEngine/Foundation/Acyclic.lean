import Mathlib.Data.Fintype.Card
import Mathlib.Data.Set.Finite.Basic
import Mathlib.Logic.Relation

/-!
# Induction where a relation does not run in circles

On a finite set that is closed under predecessors, a relation without cycles can
be followed backwards only finitely often.
-/

namespace CppContextEngine.Foundation

section Acyclic

variable {α : Type} {r : α → α → Prop}

theorem acc_of_acyclic {s : Set α} (hfinite : s.Finite)
    (hclosed : ∀ first, ∀ second ∈ s, r first second → first ∈ s)
    (hacyclic : ∀ item ∈ s, ¬ Relation.TransGen r item item) : ∀ item ∈ s, Acc r item := by
  have : Finite s := hfinite
  let within (first second : s) : Prop := Relation.TransGen r first second
  have : IsTrans s within := ⟨fun _ _ _ => Relation.TransGen.trans⟩
  have : Std.Irrefl within := ⟨fun item => hacyclic item item.2⟩
  have hwell : WellFounded within := Finite.wellFounded_of_trans_of_irrefl within
  intro item hitem
  refine hwell.induction (C := fun item => Acc r item) ⟨item, hitem⟩ ?_
  intro second ih
  constructor
  intro first hfirst
  exact ih ⟨first, hclosed _ _ second.2 hfirst⟩ (.single hfirst)

/-- What can only be followed backwards finitely often lies behind no cycle. -/
theorem not_transGen_of_acc {item : α} (h : Acc r item) : ¬ Relation.TransGen r item item := by
  have htrans := h.transGen
  induction htrans with
  | intro item _ ih => exact fun hcycle => ih item hcycle h hcycle

theorem acc_of_reflTransGen {first second : α} (h : Relation.ReflTransGen r first second)
    (hacc : Acc r second) : Acc r first := by
  induction h with
  | refl => exact hacc
  | tail _ hstep ih => exact ih (hacc.inv hstep)

end Acyclic

end CppContextEngine.Foundation
