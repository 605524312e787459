import CppContextEngine.Storage.FactRefinement

/-!
# Insertions into interned tables

Every insertion finds the keys that it has just made sure of.  So an insertion
shows in the views as an insertion of the plain row.
-/

namespace CppContextEngine.Storage

open CppContextEngine.Foundation CppContextEngine.Models

/-! ## What records stand for -/

namespace InternedFacts

variable {facts : InternedFacts}

theorem edgeView_eq_some {record : EdgeRecord} {row : StoredEdge} :
    facts.edgeView record = some row ↔
      (record.provenanceKey, (record.projectId, row.translationUnitId,
        row.buildConfigurationId)) ∈ facts.provenance.rows ∧
      (record.sourceKey, (record.projectId, row.sourceId)) ∈ facts.symbols.rows ∧
      (record.targetKey, (record.projectId, row.targetId)) ∈ facts.symbols.rows ∧
      row.projectId = record.projectId ∧ row.id = record.id ∧
      row.buildVariant = record.buildVariant ∧ row.relation = record.relation := by
  constructor
  · intro h
    obtain ⟨⟨project, unit, configuration⟩, hprovenance, h⟩ := Option.bind_eq_some_iff.mp h
    obtain ⟨⟨sourceProject, source⟩, hsource, h⟩ := Option.bind_eq_some_iff.mp h
    obtain ⟨⟨targetProject, target⟩, htarget, h⟩ := Option.bind_eq_some_iff.mp h
    split at h
    · rename_i hproject
      obtain ⟨rfl, rfl, rfl⟩ := hproject
      cases h
      rw [Interned.valueOf_eq_some] at hprovenance hsource htarget
      exact ⟨hprovenance, hsource, htarget, rfl, rfl, rfl, rfl⟩
    · cases h
  · rintro ⟨hprovenance, hsource, htarget, hproject, hid, hbuild, hrelation⟩
    simp only [edgeView, Interned.valueOf_eq_some.mpr hprovenance,
      Interned.valueOf_eq_some.mpr hsource, Interned.valueOf_eq_some.mpr htarget,
      Option.bind_eq_bind, Option.bind_some, and_self, if_true, ← hproject, ← hid, ← hbuild,
      ← hrelation]

theorem occurrenceView_eq_some {record : OccurrenceRecord} {row : OccurrenceRow} :
    facts.occurrenceView record = some row ↔
      (record.unitKey, (record.projectId, row.translationUnitId)) ∈ facts.units.rows ∧
      (record.contextKey, (record.projectId, record.unitKey, row.buildConfigurationId,
        row.buildVariant, row.path)) ∈ facts.contexts.rows ∧
      row =
        { projectId := record.projectId
          translationUnitId := row.translationUnitId
          id := record.id
          symbolId := record.symbolId
          enclosingSymbolId := record.enclosingSymbolId
          kind := record.kind
          path := row.path
          startLine := record.startLine
          endLine := record.endLine
          startColumn := record.startColumn
          endColumn := record.endColumn
          buildConfigurationId := row.buildConfigurationId
          buildVariant := row.buildVariant
          metadataJson := record.metadataJson } := by
  constructor
  · intro h
    obtain ⟨⟨project, unit⟩, hunit, h⟩ := Option.bind_eq_some_iff.mp h
    obtain ⟨⟨contextProject, unitKey, configuration, build, path⟩, hcontext, h⟩ :=
      Option.bind_eq_some_iff.mp h
    split at h
    · rename_i hproject
      obtain ⟨rfl, rfl, rfl⟩ := hproject
      cases h
      rw [Interned.valueOf_eq_some] at hunit hcontext
      exact ⟨hunit, hcontext, rfl⟩
    · cases h
  · rintro ⟨hunit, hcontext, hrow⟩
    rw [hrow]
    simp [occurrenceView, Interned.valueOf_eq_some.mpr hunit,
      Interned.valueOf_eq_some.mpr hcontext]

/-! ### Rows and records -/

/-- The tables hold the plain rows, in their order. -/
structure Represents (facts : InternedFacts) (plain : PlainFacts) : Prop where
  edges : List.Forall₂ (fun record row => facts.edgeView record = some row) facts.edges plain.edges
  occurrences : List.Forall₂ (fun record row => facts.occurrenceView record = some row)
    facts.occurrences plain.occurrences
  edgeKeys : (facts.edges.map EdgeRecord.key).Nodup
  occurrenceKeys : (facts.occurrences.map OccurrenceRecord.key).Nodup
  recordKeys : (facts.occurrences.map OccurrenceRecord.recordKey).Pairwise (· < ·)
  contextUnits : ∀ row ∈ facts.contexts.rows,
    ∃ unit, (row.2.2.1, (row.2.1, unit)) ∈ facts.units.rows

theorem key_of_edgeView {record : EdgeRecord} {row : StoredEdge}
    (h : facts.edgeView record = some row) : row.key = record.key := by
  obtain ⟨-, -, -, hproject, hid, -⟩ := edgeView_eq_some.mp h
  rw [StoredEdge.key, EdgeRecord.key, hproject, hid]

theorem map_key_of_forall₂ {records : List EdgeRecord} {rows : List StoredEdge}
    (h : List.Forall₂ (fun record row => facts.edgeView record = some row) records rows) :
    rows.map StoredEdge.key = records.map EdgeRecord.key := by
  induction h with
  | nil => rfl
  | cons hrow _ ih => simp [key_of_edgeView hrow, ih]

/-! ### Insertion of edges -/

/-- An edge whose columns are interned is joined with them. -/
theorem exists_edgeRecord {row : StoredEdge}
    (hprovenance : ∃ key, (key, (row.projectId, row.translationUnitId,
      row.buildConfigurationId)) ∈ facts.provenance.rows)
    (hsource : ∃ key, (key, (row.projectId, row.sourceId)) ∈ facts.symbols.rows)
    (htarget : ∃ key, (key, (row.projectId, row.targetId)) ∈ facts.symbols.rows) :
    ∃ record, facts.edgeRecord row = some record ∧ facts.edgeView record = some row := by
  obtain ⟨provenanceKey, hprovenance⟩ := hprovenance
  obtain ⟨sourceKey, hsource⟩ := hsource
  obtain ⟨targetKey, htarget⟩ := htarget
  have hrecord : facts.edgeRecord row = some
      ⟨row.projectId, row.id, provenanceKey, row.buildVariant, sourceKey, targetKey,
        row.relation⟩ := by
    simp [edgeRecord, Interned.keyOf_eq_some.mpr hprovenance,
      Interned.keyOf_eq_some.mpr hsource, Interned.keyOf_eq_some.mpr htarget]
  exact ⟨_, hrecord, edgeView_eq_some.mpr ⟨hprovenance, hsource, htarget, rfl, rfl, rfl, rfl⟩⟩

/-- New edges with distinct keys are appended, each as the record that it is joined to. -/
theorem foldl_insertEdge {rows : List StoredEdge}
    (hjoined : ∀ row ∈ rows, ∃ record, facts.edgeRecord row = some record ∧
      facts.edgeView record = some row) : ∀ {records : List EdgeRecord},
    (rows.map StoredEdge.key).Nodup → (∀ row ∈ rows, row.key ∉ records.map EdgeRecord.key) →
    ∃ added, rows.foldl facts.insertEdge (.ok records) = .ok (records ++ added) ∧
      List.Forall₂ (fun record row => facts.edgeView record = some row) added rows := by
  induction rows with
  | nil => exact fun _ _ => ⟨[], by simp, .nil⟩
  | cons row rows ih =>
      intro records hnodup hnew
      obtain ⟨record, hrecord, hview⟩ := hjoined row List.mem_cons_self
      have hkey := key_of_edgeView hview
      obtain ⟨hfirst, hrest⟩ := List.nodup_cons.mp hnodup
      have hinsert : facts.insertEdge (.ok records) row = .ok (records ++ [record]) := by
        have habsent := hnew row List.mem_cons_self
        rw [hkey] at habsent
        simp [insertEdge, hrecord, habsent, bind, Except.bind, pure, Except.pure]
      have hnew' : ∀ other ∈ rows, other.key ∉ (records ++ [record]).map EdgeRecord.key := by
        intro other hother hmem
        rw [List.map_append, List.mem_append, List.map_singleton, List.mem_singleton] at hmem
        rcases hmem with hmem | hmem
        · exact hnew other (List.mem_cons_of_mem _ hother) hmem
        · exact hfirst (hkey ▸ hmem ▸ List.mem_map_of_mem hother)
      obtain ⟨added, hadded, hrel⟩ :=
        ih (fun other hother => hjoined other (List.mem_cons_of_mem _ hother)) hrest hnew'
      refine ⟨record :: added, ?_, .cons hview hrel⟩
      rw [List.foldl_cons, hinsert, hadded, List.append_assoc, List.singleton_append]

/-- Records keep what they stand for while values are added. -/
theorem edgeView_mono {facts' : InternedFacts}
    (hprovenance : facts.provenance.rows ⊆ facts'.provenance.rows)
    (hsymbols : facts.symbols.rows ⊆ facts'.symbols.rows) {record : EdgeRecord} {row : StoredEdge}
    (h : facts.edgeView record = some row) : facts'.edgeView record = some row := by
  obtain ⟨hrow, hsource, htarget, hrest⟩ := edgeView_eq_some.mp h
  exact edgeView_eq_some.mpr
    ⟨hprovenance hrow, hsymbols hsource, hsymbols htarget, hrest⟩

theorem subset_internEdges (variableLimit : Nat) (rows : List StoredEdge) :
    facts.provenance.rows ⊆ (facts.internEdges variableLimit rows).provenance.rows ∧
      facts.symbols.rows ⊆ (facts.internEdges variableLimit rows).symbols.rows := by
  simp only [internEdges, insertRows_eq]
  exact ⟨Interned.subset_internAll _ _, Interned.subset_internAll _ _⟩

/-- Edges are joined with the columns that have just been interned. -/
theorem edgeRecord_internEdges (variableLimit : Nat) {rows : List StoredEdge} {row : StoredEdge}
    (hrow : row ∈ rows) :
    ∃ record, (facts.internEdges variableLimit rows).edgeRecord row = some record ∧
      (facts.internEdges variableLimit rows).edgeView record = some row := by
  have hends : ∀ id ∈ [row.sourceId, row.targetId],
      ∃ key, (key, (row.projectId, id)) ∈ (facts.internEdges variableLimit rows).symbols.rows := by
    intro id hid
    simp only [internEdges, insertRows_eq]
    apply Interned.exists_mem_internAll
    exact mem_firstPerKey_id.mpr (List.mem_flatMap.mpr ⟨row, hrow, by simpa using hid⟩)
  apply exists_edgeRecord _ (hends _ (by simp)) (hends _ (by simp))
  simp only [internEdges, insertRows_eq]
  apply Interned.exists_mem_internAll
  exact mem_firstPerKey_id.mpr (List.mem_map_of_mem hrow)

/-- New rows are appended to the view. -/
theorem insertEdges_represents {plain : PlainFacts} (h : Represents facts plain)
    (variableLimit : Nat) {pending : List StoredEdge} (hnodup : (pending.map StoredEdge.key).Nodup)
    (hnew : ∀ row ∈ pending, row.key ∉ facts.edges.map EdgeRecord.key) :
    ∃ edges, pending.foldl (facts.internEdges variableLimit pending).insertEdge (.ok facts.edges) =
        .ok edges ∧
      Represents { facts.internEdges variableLimit pending with edges }
        { plain with edges := plain.edges ++ pending } := by
  obtain ⟨added, hadded, hrel⟩ := foldl_insertEdge
    (fun row hrow => edgeRecord_internEdges variableLimit hrow) hnodup hnew
  obtain ⟨hprovenance, hsymbols⟩ := facts.subset_internEdges variableLimit pending
  refine ⟨_, hadded, ?_⟩
  have hkeys := map_key_of_forall₂ hrel
  exact
    { edges := List.rel_append (h.edges.imp fun _ _ => edgeView_mono hprovenance hsymbols) hrel
      occurrences := h.occurrences
      edgeKeys := by
        rw [List.map_append, ← hkeys, List.nodup_append]
        refine ⟨h.edgeKeys, hnodup, ?_⟩
        rintro key hkey other hother rfl
        obtain ⟨row, hrow, rfl⟩ := List.mem_map.mp hother
        exact hnew row hrow hkey
      occurrenceKeys := h.occurrenceKeys
      recordKeys := h.recordKeys
      contextUnits := h.contextUnits }

/-- An insertion of no row is skipped. -/
theorem insertPending_represents {plain : PlainFacts} (h : Represents facts plain)
    {variableLimit : Nat} {pending : List StoredEdge} (hnodup : (pending.map StoredEdge.key).Nodup)
    (hnew : ∀ row ∈ pending, row.key ∉ facts.edges.map EdgeRecord.key) :
    ∃ facts', (if pending = [] then .ok facts
      else do
        let joined := facts.internEdges variableLimit pending
        let edges ← pending.foldl joined.insertEdge (.ok facts.edges)
        return { joined with edges }) = Except.ok facts' ∧
      Represents facts' { plain with edges := plain.edges ++ pending } := by
  split
  · rename_i hnil
    rw [hnil, List.append_nil]
    exact ⟨facts, rfl, h⟩
  · obtain ⟨edges, hedges, hrepresents⟩ := insertEdges_represents h variableLimit hnodup hnew
    refine ⟨_, ?_, hrepresents⟩
    simp only [hedges]
    rfl

theorem firstPerKey_id_eq {projectId : Nat} {chunk : List StoredEdge}
    (hproject : ∀ row ∈ chunk, row.projectId = projectId) :
    firstPerKey (fun row => row.id) chunk = firstPerKey StoredEdge.key chunk := by
  apply firstPerKey_congr
  intro row hrow other hother
  simp [StoredEdge.key, hproject row hrow, hproject other hother]

/-- The identifiers that the selection before an insertion finds are those of stored keys. -/
theorem mem_existing {projectId : Nat} {edges : List EdgeRecord} {ids : List String}
    {row : StoredEdge} (hproject : row.projectId = projectId) (hid : row.id ∈ ids) :
    row.id ∈ (edges.filter fun record =>
      record.projectId = projectId ∧ record.id ∈ ids).map EdgeRecord.id ↔
      row.key ∈ edges.map EdgeRecord.key := by
  simp only [List.mem_map, List.mem_filter, decide_eq_true_eq, StoredEdge.key, EdgeRecord.key,
    Prod.mk.injEq, hproject]
  constructor
  · rintro ⟨record, ⟨hrecord, hsame, -⟩, heq⟩
    exact ⟨record, hrecord, hsame, heq⟩
  · rintro ⟨record, hrecord, hsame, heq⟩
    exact ⟨record, ⟨hrecord, hsame, heq ▸ hid⟩, heq⟩

/-- A chunk of edges goes in as under `INSERT OR IGNORE`. -/
theorem putEdgeChunk_represents {plain : PlainFacts} (h : Represents facts plain)
    (variableLimit projectId : Nat) {chunk : List StoredEdge}
    (hproject : ∀ row ∈ chunk, row.projectId = projectId) :
    ∃ facts', putEdgeChunk variableLimit projectId facts chunk = .ok facts' ∧
      Represents facts' { plain with
        edges := chunk.foldl (insertNew StoredEdge.key) plain.edges } := by
  have hexisting : ∀ row ∈ firstPerKey StoredEdge.key chunk,
      row.id ∈ (facts.edges.filter fun record => record.projectId = projectId ∧ record.id ∈
        (firstPerKey StoredEdge.key chunk).map fun row => row.id).map EdgeRecord.id ↔
        row.key ∈ facts.edges.map EdgeRecord.key := fun row hrow =>
    mem_existing (hproject row ((firstPerKey_sublist _ _).subset hrow))
      (List.mem_map_of_mem hrow)
  have hnodup : ((firstPerKey StoredEdge.key chunk).map StoredEdge.key).Nodup := nodup_firstPerKey
  have hadds : chunk.foldl (insertNew StoredEdge.key) plain.edges = plain.edges ++
      (firstPerKey StoredEdge.key chunk).filter (fun row => row.id ∉
        (facts.edges.filter fun record => record.projectId = projectId ∧ record.id ∈
          (firstPerKey StoredEdge.key chunk).map fun row => row.id).map EdgeRecord.id) := by
    rw [foldl_insertNew, map_key_of_forall₂ h.edges]
    congr 1
    apply List.filter_congr
    intro row hrow
    rw [decide_eq_decide, hexisting row hrow]
  rw [hadds]
  simp only [putEdgeChunk, insertRows_eq, firstPerKey_id_eq hproject]
  apply insertPending_represents h
  · exact (List.filter_sublist.map _).nodup hnodup
  · intro row hrow hstored
    obtain ⟨hrow, habsent⟩ := List.mem_filter.mp hrow
    exact of_decide_eq_true habsent ((hexisting row hrow).mpr hstored)

/-- Chunks of edges go in as their rows do. -/
theorem putEdges_represents (variableLimit : Nat) {projectId : Nat}
    (chunks : List (List StoredEdge)) : ∀ {facts : InternedFacts} {plain : PlainFacts},
    Represents facts plain →
    (∀ row ∈ chunks.flatten, row.projectId = projectId) →
    ∃ facts', chunks.foldlM (putEdgeChunk variableLimit projectId) facts = .ok facts' ∧
      Represents facts' { plain with
        edges := chunks.flatten.foldl (insertNew StoredEdge.key) plain.edges } := by
  induction chunks with
  | nil => exact fun h _ => ⟨_, rfl, h⟩
  | cons chunk chunks ih =>
      intro facts plain h hproject
      simp only [List.flatten_cons, List.mem_append] at hproject
      obtain ⟨facts', hchunk, hrepresents⟩ := putEdgeChunk_represents h variableLimit
        projectId fun row hrow => hproject row (.inl hrow)
      obtain ⟨final, hrun, hfinal⟩ := ih hrepresents fun row hrow => hproject row (.inr hrow)
      refine ⟨final, ?_, ?_⟩
      · rw [List.foldlM_cons, hchunk]
        exact hrun
      · rw [List.flatten_cons, List.foldl_append]
        exact hfinal

/-! ### Insertion of occurrences -/

theorem occurrenceView_mono {facts' : InternedFacts} (hunits : facts.units.rows ⊆ facts'.units.rows)
    (hcontexts : facts.contexts.rows ⊆ facts'.contexts.rows) {record : OccurrenceRecord}
    {row : OccurrenceRow} (h : facts.occurrenceView record = some row) :
    facts'.occurrenceView record = some row := by
  obtain ⟨hunit, hcontext, hrow⟩ := occurrenceView_eq_some.mp h
  exact occurrenceView_eq_some.mpr ⟨hunits hunit, hcontexts hcontext, hrow⟩

section Contexts

variable {units : Interned (Nat × String)}

theorem subset_foldl_insertContext (rows : List (Nat × String × String × String × String)) :
    ∀ contexts : Interned OccurrenceContext,
      contexts.rows ⊆ (rows.foldl (insertContext units) contexts).rows := by
  induction rows with
  | nil => exact fun contexts => List.Subset.refl _
  | cons row rows ih =>
      intro contexts
      have hfirst : contexts.rows ⊆ (insertContext units contexts row).rows := by
        unfold insertContext
        split
        · exact List.Subset.refl _
        · exact Interned.subset_intern _
      exact List.Subset.trans hfirst (ih _)

/-- A context of a stored unit is stored with the key of the unit. -/
theorem exists_mem_foldl_insertContext {rows : List (Nat × String × String × String × String)}
    {row : Nat × String × String × String × String} {unitKey : Nat}
    (hunit : (unitKey, (row.1, row.2.1)) ∈ units.rows) (hrow : row ∈ rows) :
    ∀ contexts : Interned OccurrenceContext, ∃ key,
      (key, (row.1, unitKey, row.2.2)) ∈ (rows.foldl (insertContext units) contexts).rows := by
  induction rows with
  | nil => cases hrow
  | cons first rows ih =>
      intro contexts
      rcases List.mem_cons.mp hrow with rfl | hrow
      · have hinsert : insertContext units contexts row =
            contexts.intern (row.1, unitKey, row.2.2) := by
          simp [insertContext, Interned.keyOf_eq_some.mpr hunit]
        obtain ⟨key, hkey⟩ := contexts.exists_mem_intern (row.1, unitKey, row.2.2)
        exact ⟨key, subset_foldl_insertContext rows _ (hinsert ▸ hkey)⟩
      · exact ih hrow _

/-- Every context has a unit, whatever contexts come in. -/
theorem units_of_foldl_insertContext (rows : List (Nat × String × String × String × String)) :
    ∀ contexts : Interned OccurrenceContext,
      (∀ row ∈ contexts.rows, ∃ unit, (row.2.2.1, (row.2.1, unit)) ∈ units.rows) →
      ∀ row ∈ (rows.foldl (insertContext units) contexts).rows,
        ∃ unit, (row.2.2.1, (row.2.1, unit)) ∈ units.rows := by
  induction rows with
  | nil => exact fun contexts h => h
  | cons row rows ih =>
      intro contexts h
      apply ih
      unfold insertContext
      split
      · exact h
      · rename_i unitKey hunit
        rintro ⟨key, context⟩ hcontext
        rcases Interned.mem_values_intern hcontext with hcontext | rfl
        · exact h _ hcontext
        · exact ⟨row.2.1, Interned.keyOf_eq_some.mp hunit⟩

end Contexts

/-- Records of rows have one key when the rows have. -/
theorem key_of_occurrenceView {record other : OccurrenceRecord} {row otherRow : OccurrenceRow}
    (h : facts.occurrenceView record = some row)
    (hother : facts.occurrenceView other = some otherRow) :
    other.key = record.key ↔ otherRow.key = row.key := by
  obtain ⟨hunit, -, hrow⟩ := occurrenceView_eq_some.mp h
  obtain ⟨hotherUnit, -, hotherRow⟩ := occurrenceView_eq_some.mp hother
  have hkeys := Interned.key_eq_iff hotherUnit hunit
  rw [Prod.mk.injEq] at hkeys
  rw [hrow, hotherRow]
  simp only [OccurrenceRecord.key, OccurrenceRow.key, Prod.mk.injEq, hkeys]
  tauto

/-- An occurrence whose unit and context are interned replaces the row with its key. -/
theorem insertOccurrence_represents {plain : PlainFacts} (h : Represents facts plain)
    {row : OccurrenceRow} {unitKey contextKey : Nat}
    (hunit : (unitKey, (row.projectId, row.translationUnitId)) ∈ facts.units.rows)
    (hcontext : (contextKey, (row.projectId, unitKey, row.buildConfigurationId, row.buildVariant,
      row.path)) ∈ facts.contexts.rows) :
    Represents
      { facts with
        occurrences := insertOccurrence facts.units facts.contexts facts.occurrences row }
      { plain with occurrences := replaceRow OccurrenceRow.key plain.occurrences row } := by
  simp only [insertOccurrence, Interned.keyOf_eq_some.mpr hunit,
    Interned.keyOf_eq_some.mpr hcontext, Option.bind_eq_bind, Option.bind_some, pure, replaceRow]
  generalize hrecord : OccurrenceRecord.mk (nextKey (facts.occurrences.map
    OccurrenceRecord.recordKey)) row.projectId unitKey row.id row.symbolId row.enclosingSymbolId
    row.kind contextKey row.startLine row.endLine row.startColumn row.endColumn
    row.metadataJson = record
  have hview : facts.occurrenceView record = some row := by
    subst hrecord
    exact occurrenceView_eq_some.mpr ⟨hunit, hcontext, rfl⟩
  have hkept : List.Forall₂ (fun record row => facts.occurrenceView record = some row)
      (facts.occurrences.filter fun other => other.key ≠ record.key)
      (plain.occurrences.filter fun other => other.key ≠ row.key) := by
    refine forall₂_filter ?_ (fun _ _ hother _ => hother) h.occurrences
    intro other otherRow hother
    simp [key_of_occurrenceView hview hother]
  exact
    { edges := h.edges
      occurrences := List.rel_append hkept (.cons hview .nil)
      edgeKeys := h.edgeKeys
      occurrenceKeys := by
        rw [List.map_append, List.nodup_append]
        refine ⟨(List.filter_sublist.map _).nodup h.occurrenceKeys, by simp, ?_⟩
        rintro key hkey _ hlast rfl
        obtain ⟨other, hother, rfl⟩ := List.mem_map.mp hkey
        rw [List.map_singleton, List.mem_singleton] at hlast
        simp [hlast] at hother
      recordKeys := by
        rw [List.map_append, List.pairwise_append]
        refine ⟨h.recordKeys.sublist (List.filter_sublist.map _), by simp, ?_⟩
        intro key hkey last hlast
        rw [List.map_singleton, List.mem_singleton] at hlast
        subst hlast hrecord
        exact lt_nextKey ((List.filter_sublist.map _).subset hkey)
      contextUnits := h.contextUnits }

theorem foldl_insertOccurrence_represents {rows : List OccurrenceRow} :
    ∀ {facts : InternedFacts} {plain : PlainFacts}, Represents facts plain →
    (∀ row ∈ rows, ∃ unitKey contextKey,
      (unitKey, (row.projectId, row.translationUnitId)) ∈ facts.units.rows ∧
      (contextKey, (row.projectId, unitKey, row.buildConfigurationId, row.buildVariant,
        row.path)) ∈ facts.contexts.rows) →
    Represents
      { facts with
        occurrences := rows.foldl (insertOccurrence facts.units facts.contexts)
          facts.occurrences }
      { plain with
        occurrences := rows.foldl (replaceRow OccurrenceRow.key) plain.occurrences } := by
  induction rows with
  | nil => exact fun h _ => h
  | cons row rows ih =>
      intro facts plain h hjoined
      obtain ⟨unitKey, contextKey, hunit, hcontext⟩ := hjoined row List.mem_cons_self
      exact ih (insertOccurrence_represents h hunit hcontext)
        fun other hother => hjoined other (List.mem_cons_of_mem _ hother)

/-- A chunk of occurrences goes in as under `INSERT OR REPLACE`. -/
theorem putOccurrenceChunk_represents {plain : PlainFacts} (h : Represents facts plain)
    (variableLimit : Nat) (chunk : List OccurrenceRow) :
    Represents (putOccurrenceChunk variableLimit facts chunk) { plain with
      occurrences := chunk.foldl (replaceRow OccurrenceRow.key) plain.occurrences } := by
  simp only [putOccurrenceChunk, insertRows_eq]
  generalize hunits : (firstPerKey id (chunk.map fun row =>
    (row.projectId, row.translationUnitId))).foldl Interned.intern facts.units = units
  generalize hcontexts : (firstPerKey id (chunk.map fun row => (row.projectId,
    row.translationUnitId, row.buildConfigurationId, row.buildVariant, row.path))).foldl
      (insertContext units) facts.contexts = contexts
  have hunitsKept : facts.units.rows ⊆ units.rows := by
    rw [← hunits]
    exact Interned.subset_internAll _ _
  have hcontextsKept : facts.contexts.rows ⊆ contexts.rows := by
    rw [← hcontexts]
    exact subset_foldl_insertContext _ _
  have hjoined : Represents { facts with units, contexts } plain :=
    { edges := h.edges
      occurrences := h.occurrences.imp fun _ _ => occurrenceView_mono hunitsKept hcontextsKept
      edgeKeys := h.edgeKeys
      occurrenceKeys := h.occurrenceKeys
      recordKeys := h.recordKeys
      contextUnits := by
        rw [← hcontexts]
        apply units_of_foldl_insertContext
        intro row hrow
        obtain ⟨unit, hunit⟩ := h.contextUnits row hrow
        exact ⟨unit, hunitsKept hunit⟩ }
  apply foldl_insertOccurrence_represents hjoined
  intro row hrow
  have hunit : ∃ key, (key, (row.projectId, row.translationUnitId)) ∈ units.rows := by
    rw [← hunits]
    apply Interned.exists_mem_internAll
    exact mem_firstPerKey_id.mpr (List.mem_map_of_mem hrow)
  obtain ⟨unitKey, hunit⟩ := hunit
  have hcontext := exists_mem_foldl_insertContext hunit
    (mem_firstPerKey_id.mpr (List.mem_map_of_mem (f := fun row : OccurrenceRow => (row.projectId,
      row.translationUnitId, row.buildConfigurationId, row.buildVariant, row.path)) hrow))
    facts.contexts
  rw [hcontexts] at hcontext
  obtain ⟨contextKey, hcontext⟩ := hcontext
  exact ⟨unitKey, contextKey, hunit, hcontext⟩

theorem putOccurrences_represents (variableLimit : Nat) (chunks : List (List OccurrenceRow)) :
    ∀ {facts : InternedFacts} {plain : PlainFacts}, Represents facts plain →
    Represents (chunks.foldl (putOccurrenceChunk variableLimit) facts) { plain with
      occurrences := chunks.flatten.foldl (replaceRow OccurrenceRow.key) plain.occurrences } := by
  induction chunks with
  | nil => exact fun h => h
  | cons chunk chunks ih =>
      intro facts plain h
      rw [List.foldl_cons, List.flatten_cons, List.foldl_append]
      exact ih (putOccurrenceChunk_represents h variableLimit chunk)

end InternedFacts

end CppContextEngine.Storage
