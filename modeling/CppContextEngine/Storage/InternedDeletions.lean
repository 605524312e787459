import CppContextEngine.Storage.InternedInsertions

/-!
# Deletions from interned tables

A deletion of units or symbols reaches the records that are joined with them
through the tables of keys, and no others.  With the insertions, the interned
tables stand for the plain ones in every run.
-/

namespace CppContextEngine.Storage

open CppContextEngine.Foundation CppContextEngine.Models

namespace InternedFacts

variable {facts : InternedFacts} {plain : PlainFacts}

/-! ### Records -/

theorem filterEdges_represents (h : Represents facts plain) {p : EdgeRecord → Bool}
    {q : StoredEdge → Bool}
    (hsame : ∀ record row, facts.edgeView record = some row → p record = q row) :
    Represents { facts with edges := facts.edges.filter p }
      { plain with edges := plain.edges.filter q } where
  edges := forall₂_filter hsame (fun _ _ hview _ => hview) h.edges
  occurrences := h.occurrences
  edgeKeys := (List.filter_sublist.map _).nodup h.edgeKeys
  occurrenceKeys := h.occurrenceKeys
  recordKeys := h.recordKeys
  contextUnits := h.contextUnits

theorem filterOccurrences_represents (h : Represents facts plain) {p : OccurrenceRecord → Bool}
    {q : OccurrenceRow → Bool}
    (hsame : ∀ record row, facts.occurrenceView record = some row → p record = q row) :
    Represents { facts with occurrences := facts.occurrences.filter p }
      { plain with occurrences := plain.occurrences.filter q } where
  edges := h.edges
  occurrences := forall₂_filter hsame (fun _ _ hview _ => hview) h.occurrences
  edgeKeys := h.edgeKeys
  occurrenceKeys := (List.filter_sublist.map _).nodup h.occurrenceKeys
  recordKeys := h.recordKeys.sublist (List.filter_sublist.map _)
  contextUnits := h.contextUnits

/-! ### Keys -/

/-- Deleted provenance takes the edges with it. -/
theorem deleteProvenance_represents (h : Represents facts plain)
    (removed : Nat × String × String → Bool) :
    Represents (facts.deleteProvenance removed) { plain with
      edges := plain.edges.filter fun row =>
        !removed (row.projectId, row.translationUnitId, row.buildConfigurationId) } := by
  have hsame : ∀ record row, facts.edgeView record = some row →
      (record.provenanceKey ∈ facts.provenance.keysOf
        (fun row => removed row && row.1 = record.projectId) ↔
        removed (row.projectId, row.translationUnitId, row.buildConfigurationId) = true) := by
    intro record row hview
    obtain ⟨hprovenance, -, -, hproject, -⟩ := edgeView_eq_some.mp hview
    rw [Interned.mem_keysOf hprovenance, hproject]
    simp
  exact
    { edges := by
        refine forall₂_filter ?_ ?_ h.edges
        · intro record row hview
          simp [hsame record row hview]
        · intro record row hview hkept
          obtain ⟨hprovenance, hsource, htarget, hproject, hrest⟩ := edgeView_eq_some.mp hview
          rw [decide_eq_true_eq, hsame record row hview, Bool.not_eq_true, hproject] at hkept
          exact edgeView_eq_some.mpr
            ⟨Interned.mem_delete.mpr ⟨hprovenance, hkept⟩, hsource, htarget, hproject, hrest⟩
      occurrences := h.occurrences
      edgeKeys := (List.filter_sublist.map _).nodup h.edgeKeys
      occurrenceKeys := h.occurrenceKeys
      recordKeys := h.recordKeys
      contextUnits := h.contextUnits }

/-- Deleted symbols take the edges at either end with them. -/
theorem deleteEdgeSymbols_represents (h : Represents facts plain)
    (removed : Nat × Identifier → Bool) :
    Represents (facts.deleteEdgeSymbols removed) { plain with
      edges := plain.edges.filter fun row =>
        !(removed (row.projectId, row.sourceId) || removed (row.projectId, row.targetId)) } := by
  have hkeys : ∀ {key : Nat} {projectId : Nat} {id : Identifier},
      (key, (projectId, id)) ∈ facts.symbols.rows →
      (key ∈ facts.symbols.keysOf (fun row => removed row && row.1 = projectId) ↔
        removed (projectId, id) = true) := by
    intro key projectId id hrow
    rw [Interned.mem_keysOf hrow]
    simp
  exact
    { edges := by
        refine forall₂_filter ?_ ?_ h.edges
        · intro record row hview
          obtain ⟨-, hsource, htarget, hproject, -⟩ := edgeView_eq_some.mp hview
          simp [hkeys hsource, hkeys htarget, hproject]
        · intro record row hview hkept
          obtain ⟨hprovenance, hsource, htarget, hrest⟩ := edgeView_eq_some.mp hview
          simp only [hkeys hsource, hkeys htarget, Bool.not_eq_true, decide_eq_true_eq] at hkept
          exact edgeView_eq_some.mpr ⟨hprovenance, Interned.mem_delete.mpr ⟨hsource, hkept.1⟩,
            Interned.mem_delete.mpr ⟨htarget, hkept.2⟩, hrest⟩
      occurrences := h.occurrences
      edgeKeys := (List.filter_sublist.map _).nodup h.edgeKeys
      occurrenceKeys := h.occurrenceKeys
      recordKeys := h.recordKeys
      contextUnits := h.contextUnits }

/-- Deleted units take their contexts with them, and these the occurrences. -/
theorem deleteOccurrenceUnits_represents (h : Represents facts plain)
    (removed : Nat × String → Bool) :
    Represents (facts.deleteOccurrenceUnits removed) { plain with
      occurrences := plain.occurrences.filter fun row =>
        !removed (row.projectId, row.translationUnitId) } := by
  have hunits : ∀ {key : Nat} {projectId : Nat} {unit : String},
      (key, (projectId, unit)) ∈ facts.units.rows →
      (key ∈ facts.units.keysOf (fun row => removed row && row.1 = projectId) ↔
        removed (projectId, unit) = true) := by
    intro key projectId unit hrow
    rw [Interned.mem_keysOf hrow]
    simp
  have hcontexts : ∀ record row, facts.occurrenceView record = some row →
      (record.contextKey ∈ facts.contexts.keysOf (fun context =>
        decide (context.2.1 ∈ facts.units.keysOf fun row => removed row && row.1 = context.1) &&
          context.1 = record.projectId && context.2.1 = record.unitKey) ↔
        removed (record.projectId, row.translationUnitId) = true) := by
    intro record row hview
    obtain ⟨hunit, hcontext, -⟩ := occurrenceView_eq_some.mp hview
    rw [Interned.mem_keysOf hcontext]
    simp [hunits hunit]
  exact
    { edges := h.edges
      occurrences := by
        refine forall₂_filter ?_ ?_ h.occurrences
        · intro record row hview
          obtain ⟨-, -, hrow⟩ := occurrenceView_eq_some.mp hview
          have hproject : row.projectId = record.projectId := by rw [hrow]
          simp [hcontexts record row hview, hproject]
        · intro record row hview hkept
          obtain ⟨hunit, hcontext, hrow⟩ := occurrenceView_eq_some.mp hview
          rw [decide_eq_true_eq, hcontexts record row hview, Bool.not_eq_true] at hkept
          refine occurrenceView_eq_some.mpr ⟨Interned.mem_delete.mpr ⟨hunit, hkept⟩,
            Interned.mem_delete.mpr ⟨hcontext, ?_⟩, hrow⟩
          rw [decide_eq_false_iff_not, hunits hunit, Bool.not_eq_true]
          exact hkept
      edgeKeys := h.edgeKeys
      occurrenceKeys := (List.filter_sublist.map _).nodup h.occurrenceKeys
      recordKeys := h.recordKeys.sublist (List.filter_sublist.map _)
      contextUnits := by
        rintro ⟨key, context⟩ hcontext
        obtain ⟨hcontext, hkept⟩ := Interned.mem_delete.mp hcontext
        obtain ⟨unit, hunit⟩ := h.contextUnits _ hcontext
        rw [decide_eq_false_iff_not, hunits hunit, Bool.not_eq_true] at hkept
        exact ⟨unit, Interned.mem_delete.mpr ⟨hunit, hkept⟩⟩ }

/-! ### Operations -/

theorem Represents.deleteUnits (h : Represents facts plain) (projectId : Nat)
    (unitIds : List String) :
    Represents (facts.deleteUnits projectId unitIds)
      { edges := plain.edges.filter fun row =>
          ¬ (row.projectId = projectId ∧ row.translationUnitId ∈ unitIds)
        occurrences := plain.occurrences.filter fun row =>
          ¬ (row.projectId = projectId ∧ row.translationUnitId ∈ unitIds) } := by
  have hoccurrences : ∀ record row, facts.occurrenceView record = some row →
      (decide ¬ (record.projectId = projectId ∧ record.unitKey ∈
        facts.units.keysOf fun row => row.1 = projectId ∧ row.2 ∈ unitIds)) =
      decide ¬ (row.projectId = projectId ∧ row.translationUnitId ∈ unitIds) := by
    intro record row hview
    obtain ⟨hunit, -, hrow⟩ := occurrenceView_eq_some.mp hview
    have hproject : row.projectId = record.projectId := by rw [hrow]
    rw [decide_eq_decide, hproject, Interned.mem_keysOf hunit]
    simp
  have hedges : ∀ record row, facts.edgeView record = some row →
      (decide ¬ (record.projectId = projectId ∧ record.provenanceKey ∈
        facts.provenance.keysOf fun row => row.1 = projectId ∧ row.2.1 ∈ unitIds)) =
      decide ¬ (row.projectId = projectId ∧ row.translationUnitId ∈ unitIds) := by
    intro record row hview
    obtain ⟨hprovenance, -, -, hproject, -⟩ := edgeView_eq_some.mp hview
    rw [decide_eq_decide, hproject, Interned.mem_keysOf hprovenance]
    simp
  have hleaves := filterEdges_represents (filterOccurrences_represents h hoccurrences) hedges
  -- The parents have no records left.
  have hparents : Represents (facts.deleteUnits projectId unitIds) _ :=
    deleteProvenance_represents
      (deleteOccurrenceUnits_represents hleaves fun row => row.1 = projectId ∧ row.2 ∈ unitIds)
      fun row => row.1 = projectId ∧ row.2.1 ∈ unitIds
  simpa only [List.filter_filter, decide_not, Bool.and_self] using hparents

theorem Represents.deleteSymbols (h : Represents facts plain) (gone : List (Nat × Identifier)) :
    Represents (facts.deleteSymbols gone)
      { edges := plain.edges.filter fun row =>
          ¬ ((row.projectId, row.sourceId) ∈ gone ∨ (row.projectId, row.targetId) ∈ gone)
        occurrences := plain.occurrences.filter fun row =>
          (row.projectId, row.symbolId) ∉ gone } := by
  have hsame : ∀ record row, facts.occurrenceView record = some row →
      decide ((record.projectId, record.symbolId) ∉ gone) =
        decide ((row.projectId, row.symbolId) ∉ gone) := by
    intro record row hview
    obtain ⟨-, -, hrow⟩ := occurrenceView_eq_some.mp hview
    rw [hrow]
  have hsymbols : Represents (facts.deleteSymbols gone) _ :=
    deleteEdgeSymbols_represents (filterOccurrences_represents h hsame) fun row => row ∈ gone
  simpa only [← Bool.decide_or, ← decide_not] using hsymbols

/-! ### Constraints -/

/-- What the schema enforces, with the rows of a table in the order of their keys. -/
structure Constraints (facts : InternedFacts) : Prop where
  edgeKeys : (facts.edges.map EdgeRecord.key).Nodup
  provenance : ∀ record ∈ facts.edges, ∃ unit configuration,
    (record.provenanceKey, (record.projectId, unit, configuration)) ∈ facts.provenance.rows
  sources : ∀ record ∈ facts.edges, ∃ id,
    (record.sourceKey, (record.projectId, id)) ∈ facts.symbols.rows
  targets : ∀ record ∈ facts.edges, ∃ id,
    (record.targetKey, (record.projectId, id)) ∈ facts.symbols.rows
  contextUnits : ∀ row ∈ facts.contexts.rows,
    ∃ unit, (row.2.2.1, (row.2.1, unit)) ∈ facts.units.rows
  occurrenceKeys : (facts.occurrences.map OccurrenceRecord.key).Nodup
  occurrenceContexts : ∀ record ∈ facts.occurrences, ∃ context,
    (record.contextKey, (record.projectId, record.unitKey, context)) ∈ facts.contexts.rows
  recordKeys : (facts.occurrences.map OccurrenceRecord.recordKey).Pairwise (· < ·)

/-- Rows that each stand for something are what they stand for. -/
theorem forall₂_filterMap {β γ : Type} {view : β → Option γ} {rows : List β}
    (h : ∀ row ∈ rows, ∃ other, view row = some other) :
    List.Forall₂ (fun row other => view row = some other) rows (rows.filterMap view) := by
  induction rows with
  | nil => exact .nil
  | cons row rows ih =>
      obtain ⟨other, hother⟩ := h row List.mem_cons_self
      rw [List.filterMap_cons_some hother]
      exact .cons hother (ih fun b hb => h b (List.mem_cons_of_mem _ hb))

theorem filterMap_of_forall₂ {β γ : Type} {view : β → Option γ} {rows : List β} {others : List γ}
    (h : List.Forall₂ (fun row other => view row = some other) rows others) :
    rows.filterMap view = others := by
  induction h with
  | nil => rfl
  | cons hrow _ ih => rw [List.filterMap_cons_some hrow, ih]

theorem sortBy_recordKey
    (h : (facts.occurrences.map OccurrenceRecord.recordKey).Pairwise (· < ·)) :
    sortBy OccurrenceRecord.recordKey facts.occurrences = facts.occurrences := by
  rw [List.pairwise_map] at h
  exact sortBy_eq_self _ (h.imp fun hlt => Nat.le_of_lt hlt)

/-- Under the constraints of the schema each record is a row of the view. -/
theorem Constraints.represents_view (h : facts.Constraints) : Represents facts facts.view where
  edges := by
    apply forall₂_filterMap
    intro record hrecord
    obtain ⟨unit, configuration, hprovenance⟩ := h.provenance record hrecord
    obtain ⟨source, hsource⟩ := h.sources record hrecord
    obtain ⟨target, htarget⟩ := h.targets record hrecord
    apply Option.isSome_iff_exists.mp
    simp [edgeView, Interned.valueOf_eq_some.mpr hprovenance,
      Interned.valueOf_eq_some.mpr hsource, Interned.valueOf_eq_some.mpr htarget]
  occurrences := by
    rw [view, sortBy_recordKey h.recordKeys]
    apply forall₂_filterMap
    intro record hrecord
    obtain ⟨⟨configuration, build, path⟩, hcontext⟩ := h.occurrenceContexts record hrecord
    obtain ⟨unit, hunit⟩ := h.contextUnits _ hcontext
    apply Option.isSome_iff_exists.mp
    simp [occurrenceView, Interned.valueOf_eq_some.mpr hunit,
      Interned.valueOf_eq_some.mpr hcontext]
  edgeKeys := h.edgeKeys
  occurrenceKeys := h.occurrenceKeys
  recordKeys := h.recordKeys
  contextUnits := h.contextUnits

theorem Represents.view_eq (h : Represents facts plain) : facts.view = plain := by
  rw [view, sortBy_recordKey h.recordKeys, filterMap_of_forall₂ h.edges,
    filterMap_of_forall₂ h.occurrences]

theorem exists_view_of_forall₂ {β γ : Type} {view : β → Option γ} {rows : List β} {others : List γ}
    (h : List.Forall₂ (fun row other => view row = some other) rows others) :
    ∀ row ∈ rows, ∃ other, view row = some other := by
  induction h with
  | nil => simp
  | cons hrow _ ih => exact List.forall_mem_cons.mpr ⟨⟨_, hrow⟩, ih⟩

theorem Represents.constraints (h : Represents facts plain) : facts.Constraints where
  edgeKeys := h.edgeKeys
  provenance := by
    intro record hrecord
    obtain ⟨row, hrow⟩ := exists_view_of_forall₂ h.edges record hrecord
    exact ⟨_, _, (edgeView_eq_some.mp hrow).1⟩
  sources := by
    intro record hrecord
    obtain ⟨row, hrow⟩ := exists_view_of_forall₂ h.edges record hrecord
    exact ⟨_, (edgeView_eq_some.mp hrow).2.1⟩
  targets := by
    intro record hrecord
    obtain ⟨row, hrow⟩ := exists_view_of_forall₂ h.edges record hrecord
    exact ⟨_, (edgeView_eq_some.mp hrow).2.2.1⟩
  contextUnits := h.contextUnits
  occurrenceKeys := h.occurrenceKeys
  occurrenceContexts := by
    intro record hrecord
    obtain ⟨row, hrow⟩ := exists_view_of_forall₂ h.occurrences record hrecord
    exact ⟨_, (occurrenceView_eq_some.mp hrow).2.1⟩
  recordKeys := h.recordKeys

end InternedFacts

/-! ## Whole runs -/

section Runs

variable (encoding : RowEncoding)

theorem internedTables_refines :
    (internedTables encoding).Refines (plainTables encoding) InternedFacts.Represents where
  putEdges projectId edges facts plain h := by
    have hproject : ∀ row ∈ (ingestionRowBatches encoding.variableLimit 8
        (edges.map (encoding.edgeRow projectId))).flatten, row.projectId = projectId := by
      rw [flatten_ingestionRowBatches]
      intro row hrow
      obtain ⟨edge, -, rfl⟩ := List.mem_map.mp hrow
      rfl
    obtain ⟨facts', hput, hrepresents⟩ :=
      InternedFacts.putEdges_represents encoding.variableLimit _ h hproject
    rw [flatten_ingestionRowBatches] at hrepresents
    exact ⟨facts', _, hput, rfl, hrepresents⟩
  putOccurrences projectId occurrences facts plain h := by
    have hrepresents := InternedFacts.putOccurrences_represents encoding.variableLimit
      (ingestionRowBatches encoding.variableLimit 14
        (occurrences.map (encoding.occurrenceRow projectId))) h
    rw [flatten_ingestionRowBatches] at hrepresents
    exact ⟨_, _, rfl, rfl, hrepresents⟩
  deleteUnits projectId unitIds _ _ h := h.deleteUnits projectId unitIds
  deleteSymbols gone _ _ h := h.deleteSymbols gone

/-- Interned tables as the schema admits them. -/
def EnforcedFacts := { facts : InternedFacts // facts.Constraints }

/-- No run of the store fails, and its views show what the plain tables would hold. -/
theorem views_are_plain_tables (parents : ParentTables) (facts : EnforcedFacts)
    (operations : List FactOperation) :
    ∃ (parents' : ParentTables) (facts' : EnforcedFacts),
      (internedTables encoding).run ⟨parents, facts.val⟩ operations =
        .ok ⟨parents', facts'.val⟩ ∧
      (plainTables encoding).run ⟨parents, facts.val.view⟩ operations =
        .ok ⟨parents', facts'.val.view⟩ := by
  have hstart : FactTables.Related InternedFacts.Represents ⟨parents, facts.val⟩
      ⟨parents, facts.val.view⟩ := ⟨rfl, facts.property.represents_view⟩
  obtain ⟨⟨parents', facts'⟩, ⟨plainParents, plain⟩, hrun, hplain, hparents, hfacts⟩ :=
    FactTables.run_refines (internedTables_refines encoding) operations hstart
  have hparents : parents' = plainParents := hparents
  have hfacts : facts'.Represents plain := hfacts
  refine ⟨parents', ⟨facts', hfacts.constraints⟩, hrun, ?_⟩
  rw [hplain, hparents, hfacts.view_eq]

end Runs

end CppContextEngine.Storage
