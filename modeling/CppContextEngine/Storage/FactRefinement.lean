import CppContextEngine.Foundation.Fallible
import CppContextEngine.Storage.InternedFacts

/-!
# Stores of facts that agree

Two ways to hold edges and occurrences that agree after each insertion and each
deletion agree after every run of the store.
-/

namespace CppContextEngine.Storage

open CppContextEngine.Foundation CppContextEngine.Models

/-! ## Chunks -/

section Chunks

variable {ρ σ : Type} [IngestionRow ρ]

theorem flatten_rowBatches (rowLimit : Nat) (rows : List ρ) : ∀ (pending : List ρ) (payload : Nat),
    (rowBatches rowLimit rows pending payload).flatten = pending ++ rows := by
  induction rows with
  | nil =>
      intro pending payload
      rw [rowBatches]
      split
      · rename_i hnil
        simp [hnil]
      · simp
  | cons row rows ih =>
      intro pending payload
      rw [rowBatches]
      by_cases hflush : pending ≠ [] ∧ insertBatchBytes < payload + rowBytes row
      · simp only [if_pos hflush, List.cons_ne_nil, if_false]
        split <;> simp [ih]
      · simp only [if_neg hflush, if_true, List.nil_append]
        split <;> simp [ih]

/-- Chunks are the rows in their order. -/
theorem flatten_ingestionRowBatches (variableLimit columns : Nat) (rows : List ρ) :
    (ingestionRowBatches variableLimit columns rows).flatten = rows := by
  unfold ingestionRowBatches
  rw [flatten_rowBatches, List.nil_append]

theorem insertRows_eq (variableLimit columns : Nat) (insert : σ → ρ → σ) (state : σ)
    (rows : List ρ) : insertRows variableLimit columns insert state rows =
      rows.foldl insert state := by
  unfold insertRows
  rw [← List.foldl_flatten, flatten_ingestionRowBatches]

end Chunks

/-! ## Refinement -/

/-- Two ways to hold the facts that every operation keeps related. -/
structure FactTables.Refines {τ σ : Type} (tables : FactTables τ) (spec : FactTables σ)
    (Represents : τ → σ → Prop) : Prop where
  putEdges : ∀ projectId edges facts plain, Represents facts plain →
    ∃ facts' plain', tables.putEdges projectId edges facts = .ok facts' ∧
      spec.putEdges projectId edges plain = .ok plain' ∧ Represents facts' plain'
  putOccurrences : ∀ projectId occurrences facts plain, Represents facts plain →
    ∃ facts' plain', tables.putOccurrences projectId occurrences facts = .ok facts' ∧
      spec.putOccurrences projectId occurrences plain = .ok plain' ∧ Represents facts' plain'
  deleteUnits : ∀ projectId unitIds facts plain, Represents facts plain →
    Represents (tables.deleteUnits projectId unitIds facts)
      (spec.deleteUnits projectId unitIds plain)
  deleteSymbols : ∀ gone facts plain, Represents facts plain →
    Represents (tables.deleteSymbols gone facts) (spec.deleteSymbols gone plain)

namespace FactTables

variable {τ σ : Type} {tables : FactTables τ} {spec : FactTables σ} {Represents : τ → σ → Prop}

/-- Stores with equal parents and related facts. -/
def Related (Represents : τ → σ → Prop) (store : FactStore τ) (plain : FactStore σ) : Prop :=
  store.parents = plain.parents ∧ Represents store.facts plain.facts

section Steps

variable (hrefines : tables.Refines spec Represents)
include hrefines

theorem Related.deleteSymbolRows {store : FactStore τ} {plain : FactStore σ}
    (h : Related Represents store plain) (projectId : Nat) (symbolIds : List Identifier) :
    Related Represents (tables.deleteSymbolRows projectId store symbolIds)
      (spec.deleteSymbolRows projectId plain symbolIds) := by
  obtain ⟨hparents, hfacts⟩ := h
  refine ⟨by simp [FactTables.deleteSymbolRows, hparents], ?_⟩
  simp only [FactTables.deleteSymbolRows, hparents]
  exact hrefines.deleteSymbols _ _ _ hfacts

theorem Related.deleteOrphans {store : FactStore τ} {plain : FactStore σ}
    (h : Related Represents store plain) (projectId : Nat) :
    Related Represents (tables.deleteOrphans projectId store)
      (spec.deleteOrphans projectId plain) := by
  unfold FactTables.deleteOrphans
  rw [h.1]
  exact h.deleteSymbolRows hrefines projectId _

theorem Related.deleteTranslationUnits {store : FactStore τ} {plain : FactStore σ}
    (h : Related Represents store plain) (projectId : Nat) (unitIds : List String) :
    Related Represents (tables.deleteTranslationUnits projectId store unitIds)
      (spec.deleteTranslationUnits projectId plain unitIds) := by
  unfold FactTables.deleteTranslationUnits
  split
  · exact h
  · apply Related.deleteOrphans hrefines
    exact ⟨by rw [h.1], hrefines.deleteUnits _ _ _ _ h.2⟩

theorem Related.removeBuildVariant {store : FactStore τ} {plain : FactStore σ}
    (h : Related Represents store plain) (projectId : Nat) (name : String) :
    Related Represents (tables.removeBuildVariant projectId store name)
      (spec.removeBuildVariant projectId plain name) := by
  unfold FactTables.removeBuildVariant
  rw [h.1]
  split
  · have hbuild : Related Represents
        { store with parents := plain.parents.deleteBuild projectId name }
        { plain with parents := plain.parents.deleteBuild projectId name } := ⟨rfl, h.2⟩
    have hunits := hbuild.deleteTranslationUnits hrefines projectId
      (plain.parents.unitsOfBuild projectId name)
    apply Related.deleteOrphans hrefines
    exact ⟨by rw [hunits.1], hunits.2⟩
  · exact h

/-- One operation keeps related stores related, and it fails on neither. -/
theorem step_refines {store : FactStore τ} {plain : FactStore σ}
    (h : Related Represents store plain) (operation : FactOperation) :
    ∃ store' plain', tables.step store operation = .ok store' ∧
      spec.step plain operation = .ok plain' ∧ Related Represents store' plain' := by
  cases operation with
  | putEdges projectId edges =>
      obtain ⟨facts, plainFacts, hfacts, hplain, hrelated⟩ :=
        hrefines.putEdges projectId edges _ _ h.2
      refine ⟨{ store with facts }, { plain with facts := plainFacts }, ?_, ?_, h.1, hrelated⟩
      · simp [step, hfacts, bind, Except.bind, pure, Except.pure]
      · simp [step, hplain, bind, Except.bind, pure, Except.pure]
  | putOccurrences projectId occurrences =>
      obtain ⟨facts, plainFacts, hfacts, hplain, hrelated⟩ :=
        hrefines.putOccurrences projectId occurrences _ _ h.2
      refine ⟨{ store with facts }, { plain with facts := plainFacts }, ?_, ?_, h.1, hrelated⟩
      · simp [step, hfacts, bind, Except.bind, pure, Except.pure]
      · simp [step, hplain, bind, Except.bind, pure, Except.pure]
  | deleteTranslationUnits projectId unitIds =>
      exact ⟨_, _, rfl, rfl, h.deleteTranslationUnits hrefines projectId unitIds⟩
  | deleteSymbols projectId symbolIds =>
      exact ⟨_, _, rfl, rfl, h.deleteSymbolRows hrefines projectId symbolIds⟩
  | removeBuildVariant projectId name =>
      exact ⟨_, _, rfl, rfl, h.removeBuildVariant hrefines projectId name⟩
  | stage change =>
      refine ⟨_, _, rfl, rfl, ?_, h.2⟩
      simp [h.1]

theorem run_refines (operations : List FactOperation) : ∀ {store : FactStore τ}
    {plain : FactStore σ}, Related Represents store plain →
    ∃ store' plain', tables.run store operations = .ok store' ∧
      spec.run plain operations = .ok plain' ∧ Related Represents store' plain' := by
  induction operations with
  | nil => exact fun h => ⟨_, _, rfl, rfl, h⟩
  | cons operation operations ih =>
      intro store plain h
      obtain ⟨store', plain', hstore, hplain, hrelated⟩ := step_refines hrefines h operation
      obtain ⟨final, finalPlain, hrun, hrunPlain, hfinal⟩ := ih hrelated
      refine ⟨final, finalPlain, ?_, ?_, hfinal⟩
      · simp [run, hstore, hrun, bind, Except.bind]
      · simp [run, hplain, hrunPlain, bind, Except.bind]

end Steps

end FactTables

end CppContextEngine.Storage
