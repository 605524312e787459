import CppContextEngine.Models.BatchRows
import CppContextEngine.Storage.BuildVariants
import CppContextEngine.Storage.SummaryPages

/-!
# Analysis facts in the database

The control-flow and data-flow facts of functions, and the units that cover
them.  Each query selects the rows of one section in a fixed order and returns
a bounded page of them, which says whether there are more.
-/

namespace CppContextEngine.Storage

open CppContextEngine.Foundation CppContextEngine.Models

/-! ## Coverage -/

/-- A row of `translation_unit_symbols`. -/
structure MembershipRow where
  projectId : Nat
  translationUnitId : String
  symbolId : String
  isDefinition : Bool

/-- The columns of `translation_units` that coverage reads. -/
structure AnalyzedUnitRow where
  projectId : Nat
  id : String
  buildVariant : String
  analysisBackend : String
  indexProfile : IndexProfile
  navigationFactsComplete : Bool
  cfgFactsComplete : Bool
  dataFlowFactsComplete : Bool
  summaryFactsComplete : Bool

/-- A row of `deep_materializations`. -/
structure MaterializationRow where
  projectId : Nat
  id : String
  closureGenerationId : String
  unitCount : Nat
  closureComplete : Bool
  limitReason : String

/-- A row of `deep_tu_cache`. -/
structure CachedUnitRow where
  projectId : Nat
  translationUnitId : String
  identityHash : String
  closureGenerationId : String
  cfgComplete : Bool
  dataFlowComplete : Bool
  summariesComplete : Bool
  bindingsComplete : Bool

/-- A row of `deep_materialization_units`. -/
structure MaterializedUnitRow where
  projectId : Nat
  materializationId : String
  translationUnitId : String
  identityHash : String
  distance : Nat

/-- What is known of one symbol in one unit. -/
structure AnalysisCoverageState where
  buildVariant : String
  translationUnitId : String
  analysisBackend : String
  indexProfile : IndexProfile
  navigationFactsComplete : Bool
  cfgFactsComplete : Bool
  dataFlowFactsComplete : Bool
  summaryFactsComplete : Bool
  bindingFactsComplete : Bool
  closureComplete : Bool
  materializationId : Option String
  limitReason : String
  distance : Nat
  deriving DecidableEq

/-- The tables that the analysis queries read. -/
structure AnalysisStore extends SummaryStore, BuildStore where
  memberships : List MembershipRow
  units : List AnalyzedUnitRow
  materializations : List MaterializationRow
  cachedUnits : List CachedUnitRow
  materializedUnits : List MaterializedUnitRow
  cfgGraphs : List (FactRow CfgGraph)
  cfgBlocks : List (FactRow CfgBlock)
  cfgElements : List (FactRow CfgElement)
  cfgEdges : List (FactRow CfgEdge)
  dataFlowAnalyses : List (FactRow DataFlowAnalysis)
  memoryLocations : List (FactRow MemoryLocation)
  dataAccesses : List (FactRow DataAccess)
  dataFlowEvidence : List (FactRow DataFlowEvidence)
  functionSummaries : List (FactRow FunctionSummary)
  interproceduralFlows : List (FactRow InterproceduralFlow)
  /-- The summaries that a payload is joined with. -/
  summaryRows : summaries =
    functionSummaries.map fun row => ⟨row.projectId, row.fact.id, row.fact.buildVariant⟩
  /-- `REFERENCES cfg_blocks(project_id, id)` -/
  elementBlocks : ∀ row ∈ cfgElements, ∃ block ∈ cfgBlocks,
    block.projectId = row.projectId ∧ block.fact.id = row.fact.blockId
  edgeBlocks : ∀ row ∈ cfgEdges, ∀ id ∈ [row.fact.sourceBlockId, row.fact.targetBlockId],
    ∃ block ∈ cfgBlocks, block.projectId = row.projectId ∧ block.fact.id = id
  accessBlocks : ∀ row ∈ dataAccesses, ∃ block ∈ cfgBlocks,
    block.projectId = row.projectId ∧ block.fact.id = row.fact.blockId

/-- The coverage that a unit states of itself. -/
def AnalyzedUnitRow.coverage (unit : AnalyzedUnitRow) : AnalysisCoverageState where
  buildVariant := unit.buildVariant
  translationUnitId := unit.id
  analysisBackend := unit.analysisBackend
  indexProfile := unit.indexProfile
  navigationFactsComplete := unit.navigationFactsComplete
  cfgFactsComplete := unit.cfgFactsComplete
  dataFlowFactsComplete := unit.dataFlowFactsComplete
  summaryFactsComplete := unit.summaryFactsComplete
  bindingFactsComplete := unit.summaryFactsComplete
  closureComplete := unit.summaryFactsComplete
  materializationId := none
  limitReason := ""
  distance := 0

/-! ## Pages -/

@[simp] theorem take_pageOf {α : Type} (limit : Nat) (items : List α) :
    (SummaryStore.pageOf limit items).items.take limit = items.take limit := by
  simp [SummaryStore.pageOf, List.take_take]

/-- A page that leaves nothing out shows all items. -/
theorem take_of_not_truncated {α : Type} {limit : Nat} {items : List α}
    (h : (SummaryStore.pageOf limit items).truncated = false) : items.take limit = items := by
  apply List.take_of_length_le
  simpa [SummaryStore.pageOf] using h

namespace AnalysisStore

variable (store : AnalysisStore)

/-! ## Coverage queries -/

/-- The mapped units of a materialization that its generation has cached. -/
def backedUnits (materialization : MaterializationRow) :
    List (MaterializedUnitRow × CachedUnitRow) :=
  store.materializedUnits.flatMap fun mapped =>
    (store.cachedUnits.filter fun cache =>
      mapped.projectId = materialization.projectId ∧
        mapped.materializationId = materialization.id ∧ cache.projectId = mapped.projectId ∧
          cache.translationUnitId = mapped.translationUnitId ∧
            cache.identityHash = mapped.identityHash ∧
              cache.closureGenerationId = materialization.closureGenerationId).map (mapped, ·)

/-- The coverage of a unit in a materialization all of whose units are backed. -/
def materializedCoverage (materializationId : String) (unit : AnalyzedUnitRow) :
    List AnalysisCoverageState :=
  (store.materializations.filter fun materialization =>
      materialization.projectId = unit.projectId ∧ materialization.id = materializationId ∧
        materialization.unitCount = (store.backedUnits materialization).length).flatMap
    fun materialization =>
      ((store.backedUnits materialization).filter fun (mapped, _) =>
        mapped.translationUnitId = unit.id).map fun (mapped, cache) =>
          { unit.coverage with
            cfgFactsComplete := cache.cfgComplete
            dataFlowFactsComplete := cache.dataFlowComplete
            summaryFactsComplete := cache.summariesComplete && materialization.closureComplete
            bindingFactsComplete := cache.bindingsComplete && materialization.closureComplete
            closureComplete := materialization.closureComplete
            materializationId := some materialization.id
            limitReason := materialization.limitReason
            distance := mapped.distance }

/-- `analysis_coverage` -/
def analysisCoverage (symbolId : String) (root : Option String) (scope : Option BuildScope)
    (materializationId : Option String) : Except StoreError (List AnalysisCoverageState) :=
  match store.projectIdOf root with
  | .error .keyError => .ok []
  | .error error => .error error
  | .ok projectId =>
      let names := store.scopeNames scope
      let members := store.memberships.filter fun row =>
        row.projectId = projectId ∧ row.symbolId = symbolId ∧ row.isDefinition = true
      let units := members.flatMap fun row => store.units.filter fun unit =>
        unit.projectId = row.projectId ∧ unit.id = row.translationUnitId ∧
          unit.buildVariant ∈ names
      let states := match materializationId with
        | none => units.map AnalyzedUnitRow.coverage
        | some id => units.flatMap (store.materializedCoverage id)
      .ok (sortBy (fun state => [state.buildVariant, state.translationUnitId]) states.dedup)

/-! ## Sections -/

/-- The facts of a table's rows that a query selects in one project. -/
def factsOf {α : Type} (rows : List (FactRow α)) (projectId : Nat) (selected : α → Prop)
    [DecidablePred selected] : List α :=
  (rows.filter fun row => row.projectId = projectId ∧ selected row.fact).map FactRow.fact

section Sections

variable (projectId : Nat) (names : List String)

/-- `ORDER BY build_variant, build_configuration_id, translation_unit_id, function_symbol_id, id` -/
def graphOrder (graph : CfgGraph) : List String :=
  [graph.buildVariant, graph.buildConfigurationId, graph.translationUnitId,
    graph.functionSymbolId.val, graph.id.val]

def graphRows (functionSymbolId : String) (translationUnitIds : List String) : List CfgGraph :=
  sortBy graphOrder (factsOf store.cfgGraphs projectId fun graph =>
    graph.buildVariant ∈ names ∧ graph.functionSymbolId.val = functionSymbolId ∧
      graph.translationUnitId ∈ translationUnitIds)

def blocksOf (graphId : String) : List CfgBlock :=
  factsOf store.cfgBlocks projectId fun block =>
    block.graphId.val = graphId ∧ block.buildVariant ∈ names

/-- `ORDER BY block_index, id` -/
def blockRows (graphId : String) : List CfgBlock :=
  sortBy (fun block => toLex (block.index, block.id.val)) (store.blocksOf projectId names graphId)

/-- The index of the block that a row is joined with. -/
def blockIndex (blockId : Identifier) : Option Nat :=
  (store.cfgBlocks.find? fun row => row.projectId = projectId ∧ row.fact.id = blockId).map
    fun row => row.fact.index

def elementsOf (graphId : String) : List CfgElement :=
  factsOf store.cfgElements projectId fun element =>
    element.graphId.val = graphId ∧ element.buildVariant ∈ names

/-- `ORDER BY blocks.block_index, elements.element_index, elements.id` -/
def elementRows (graphId : String) : List CfgElement :=
  (sortBy (fun joined => toLex (joined.1, toLex (joined.2.index, joined.2.id.val)))
    ((store.elementsOf projectId names graphId).filterMap fun element =>
      (store.blockIndex projectId element.blockId).map (·, element))).map Prod.snd

def edgesOf (graphId : String) : List CfgEdge :=
  factsOf store.cfgEdges projectId fun edge =>
    edge.graphId.val = graphId ∧ edge.buildVariant ∈ names

/-- `ORDER BY source.block_index, edges.successor_index, target.block_index, edges.kind,
edges.feasible DESC, edges.id` -/
def edgeOrder (ends : Nat × Nat) (edge : CfgEdge) :
    Nat ×ₗ Nat ×ₗ Nat ×ₗ String ×ₗ Boolᵒᵈ ×ₗ String :=
  toLex (ends.1, toLex (edge.successorIndex, toLex (ends.2, toLex (StrEnum.value edge.kind,
    toLex (OrderDual.toDual edge.feasible, edge.id.val)))))

/-- The indices of an edge's two blocks. -/
def edgeEnds (edge : CfgEdge) : Option (Nat × Nat) := do
  let source ← store.blockIndex projectId edge.sourceBlockId
  let target ← store.blockIndex projectId edge.targetBlockId
  return (source, target)

def edgeRows (graphId : String) : List CfgEdge :=
  (sortBy (fun joined => edgeOrder joined.1 joined.2)
    ((store.edgesOf projectId names graphId).filterMap fun edge =>
      (store.edgeEnds projectId edge).map (·, edge))).map Prod.snd

/-- `ORDER BY build_variant, graph_id, id` -/
def analysisRows (graphId : String) : List DataFlowAnalysis :=
  sortBy (fun analysis => [analysis.buildVariant, analysis.graphId.val, analysis.id.val])
    (factsOf store.dataFlowAnalyses projectId fun analysis =>
      analysis.buildVariant ∈ names ∧ analysis.graphId.val = graphId)

def locationsOf (analysisId : String) : List MemoryLocation :=
  factsOf store.memoryLocations projectId fun location =>
    location.analysisId.val = analysisId ∧ location.buildVariant ∈ names

/-- `ORDER BY kind, name, id` -/
def locationRows (analysisId : String) : List MemoryLocation :=
  sortBy (fun location => [StrEnum.value location.kind, location.name.val, location.id.val])
    (store.locationsOf projectId names analysisId)

def accessesOf (analysisId : String) : List DataAccess :=
  factsOf store.dataAccesses projectId fun access =>
    access.analysisId.val = analysisId ∧ access.buildVariant ∈ names

/-- `ORDER BY blocks.block_index, accesses.sequence, accesses.id` -/
def accessRows (analysisId : String) : List DataAccess :=
  (sortBy (fun joined => toLex (joined.1, toLex (joined.2.sequence, joined.2.id.val)))
    ((store.accessesOf projectId names analysisId).filterMap fun access =>
      (store.blockIndex projectId access.blockId).map (·, access))).map Prod.snd

/-- The four columns of an evidence pair; an empty text stands for `NULL`, which comes first. -/
def pairColumns : EvidencePair → List String
  | .accesses source target => [source.val, "", target.val, ""]
  | .locations source target => ["", source.val, "", target.val]

/-- `ORDER BY CASE certainty …, relation, source_access_id, source_location_id,
target_access_id, target_location_id, id` -/
def evidenceOrder (evidence : DataFlowEvidence) : Nat ×ₗ List String :=
  toLex (if evidence.certainty = .certain then 0 else 1,
    StrEnum.value evidence.relation :: pairColumns evidence.pair ++ [evidence.id.val])

def evidenceOf (analysisId : String) : List DataFlowEvidence :=
  factsOf store.dataFlowEvidence projectId fun evidence =>
    evidence.analysisId.val = analysisId ∧ evidence.buildVariant ∈ names

def evidenceRows (analysisId : String) : List DataFlowEvidence :=
  sortBy evidenceOrder (store.evidenceOf projectId names analysisId)

/-- `ORDER BY build_variant, build_configuration_id, translation_unit_id, id` -/
def summaryOrder (summary : FunctionSummary) : List String :=
  [summary.buildVariant, summary.buildConfigurationId, summary.translationUnitId, summary.id]

def functionSummaryRows (functionSymbolId : String) (translationUnitIds : List String) :
    List FunctionSummary :=
  sortBy summaryOrder (factsOf store.functionSummaries projectId fun summary =>
    summary.functionSymbolId = functionSymbolId ∧ summary.buildVariant ∈ names ∧
      summary.translationUnitId ∈ translationUnitIds)

/-- `ORDER BY CASE certainty …, CASE target_certainty …, kind, callsite_id, id` -/
def flowOrder (flow : InterproceduralFlow) : Nat ×ₗ Nat ×ₗ List String :=
  toLex (if flow.certainty = .certain then 0 else 1,
    toLex (if flow.targetCertainty = .certain then 0 else 1,
      [StrEnum.value flow.kind, flow.callsiteId, flow.id]))

def flowRows (summaryId : String) (translationUnitIds : List String) : List InterproceduralFlow :=
  sortBy flowOrder (factsOf store.interproceduralFlows projectId fun flow =>
    (flow.callerSummaryId = summaryId ∨ flow.calleeSummaryId = summaryId) ∧
      flow.buildVariant ∈ names ∧ flow.translationUnitId ∈ translationUnitIds)

/-! ### Joins -/

/-- A join that finds a partner for every fact loses none. -/
theorem joined_perm {α κ' κ : Type} [LinearOrder κ] (key : κ' × α → κ) {facts : List α}
    {partner : α → Option κ'} (h : ∀ fact ∈ facts, (partner fact).isSome = true) :
    ((sortBy key (facts.filterMap fun fact => (partner fact).map (·, fact))).map Prod.snd).Perm
      facts := by
  have hjoined : (facts.filterMap fun fact => (partner fact).map (·, fact)).map Prod.snd =
      facts := by
    rw [List.map_filterMap]
    calc facts.filterMap (fun fact => ((partner fact).map (·, fact)).map Prod.snd)
        = facts.filterMap some := by
          apply List.filterMap_congr
          intro fact hfact
          obtain ⟨found, hfound⟩ := Option.isSome_iff_exists.mp (h fact hfact)
          simp [hfound]
      _ = facts := List.filterMap_some
  calc ((sortBy key (facts.filterMap fun fact => (partner fact).map (·, fact))).map Prod.snd).Perm
        ((facts.filterMap fun fact => (partner fact).map (·, fact)).map Prod.snd) :=
          (sortBy_perm key _).map Prod.snd
      _ = facts := hjoined

theorem mem_factsOf {α : Type} {rows : List (FactRow α)} {selected : α → Prop}
    [DecidablePred selected] {fact : α} : fact ∈ factsOf rows projectId selected ↔
      selected fact ∧ ∃ row ∈ rows, row.projectId = projectId ∧ row.fact = fact := by
  simp only [factsOf, List.mem_map, List.mem_filter, decide_eq_true_eq]
  grind

theorem blockIndex_isSome {blockId : Identifier} (h : ∃ block ∈ store.cfgBlocks,
    block.projectId = projectId ∧ block.fact.id = blockId) :
    (store.blockIndex projectId blockId).isSome = true := by
  obtain ⟨block, hblock, hplace⟩ := h
  simp only [blockIndex, Option.isSome_map, List.find?_isSome]
  exact ⟨block, hblock, by simpa using hplace⟩

theorem elementRows_perm (graphId : String) :
    (store.elementRows projectId names graphId).Perm
      (store.elementsOf projectId names graphId) := by
  apply joined_perm
  intro element helement
  obtain ⟨_, row, hrow, rfl, rfl⟩ := (mem_factsOf projectId).mp helement
  exact store.blockIndex_isSome _ (store.elementBlocks row hrow)

theorem edgeRows_perm (graphId : String) :
    (store.edgeRows projectId names graphId).Perm (store.edgesOf projectId names graphId) := by
  apply joined_perm
  intro edge hedge
  obtain ⟨_, row, hrow, rfl, rfl⟩ := (mem_factsOf projectId).mp hedge
  have hends := store.edgeBlocks row hrow
  have hsource := store.blockIndex_isSome _ (hends row.fact.sourceBlockId (by simp))
  have htarget := store.blockIndex_isSome _ (hends row.fact.targetBlockId (by simp))
  obtain ⟨source, hsource⟩ := Option.isSome_iff_exists.mp hsource
  obtain ⟨target, htarget⟩ := Option.isSome_iff_exists.mp htarget
  simp [edgeEnds, hsource, htarget]

theorem accessRows_perm (analysisId : String) :
    (store.accessRows projectId names analysisId).Perm
      (store.accessesOf projectId names analysisId) := by
  apply joined_perm
  intro access haccess
  obtain ⟨_, row, hrow, rfl, rfl⟩ := (mem_factsOf projectId).mp haccess
  exact store.blockIndex_isSome _ (store.accessBlocks row hrow)

end Sections

/-! ## Queries -/

/-- The page that a query makes of a section's rows. -/
def boundedRows {α : Type} (root : Option String) (limit : Int) (rows : Nat → List α) :
    Except PageError (BoundedCfgResult α) := do
  let limit ← cfgLimit limit
  let projectId ← (store.projectIdOf root).mapError .store
  let selected := (rows projectId).take (limit + 1)
  return { items := selected.take limit, truncated := limit < selected.length }

/-- A page is the first rows of its section, and it says whether there are more. -/
theorem boundedRows_eq_ok {α : Type} {root : Option String} {limit : Int} {rows : Nat → List α}
    {page : BoundedCfgResult α} (h : store.boundedRows root limit rows = .ok page) :
    ∃ projectId, store.projectIdOf root = .ok projectId ∧
      page = SummaryStore.pageOf limit.toNat (rows projectId) := by
  unfold boundedRows at h
  obtain ⟨count, hcount, h⟩ := bind_eq_ok.mp h
  obtain ⟨projectId, hproject, h⟩ := bind_eq_ok.mp h
  cases h
  refine ⟨projectId, mapError_eq_ok.mp hproject, ?_⟩
  unfold cfgLimit at hcount
  split at hcount
  · cases hcount
  · cases hcount
    simp only [SummaryStore.pageOf, List.take_take, List.length_take]
    congr 1
    · congr 1
      omega
    · rw [decide_eq_decide]
      omega

/-- A query that is asked for what is left of a budget, and for one row at least. -/
theorem boundedRows_of_left {α : Type} {root : Option String} {left projectId : Nat}
    {rows : Nat → List α} {page : BoundedCfgResult α} (hleft : 0 < left)
    (hproject : store.projectIdOf root = .ok projectId)
    (h : store.boundedRows root (max 1 left) rows = .ok page) :
    page = SummaryStore.pageOf left (rows projectId) := by
  obtain ⟨found, hfound, hpage⟩ := store.boundedRows_eq_ok h
  cases hproject.symm.trans hfound
  have hlimit : (max 1 (left : Int)).toNat = left := by omega
  rw [hpage, hlimit]

section Queries

variable (root : Option String) (scope : Option BuildScope) (limit : Int)

/-- `cfg_graphs`; no units select no rows. -/
def cfgGraphPage (functionSymbolId : String) (translationUnitIds : List String) :=
  store.boundedRows root limit fun projectId =>
    store.graphRows projectId (store.scopeNames scope) functionSymbolId translationUnitIds

/-- `cfg_blocks` -/
def cfgBlockPage (graphId : String) :=
  store.boundedRows root limit fun projectId =>
    store.blockRows projectId (store.scopeNames scope) graphId

/-- `cfg_elements` -/
def cfgElementPage (graphId : String) :=
  store.boundedRows root limit fun projectId =>
    store.elementRows projectId (store.scopeNames scope) graphId

/-- `cfg_edges` -/
def cfgEdgePage (graphId : String) :=
  store.boundedRows root limit fun projectId =>
    store.edgeRows projectId (store.scopeNames scope) graphId

/-- `data_flow_analyses` -/
def dataFlowAnalysisPage (graphId : String) :=
  store.boundedRows root limit fun projectId =>
    store.analysisRows projectId (store.scopeNames scope) graphId

/-- `memory_locations` -/
def memoryLocationPage (analysisId : String) :=
  store.boundedRows root limit fun projectId =>
    store.locationRows projectId (store.scopeNames scope) analysisId

/-- `data_accesses` -/
def dataAccessPage (analysisId : String) :=
  store.boundedRows root limit fun projectId =>
    store.accessRows projectId (store.scopeNames scope) analysisId

/-- `data_flow_evidence` -/
def dataFlowEvidencePage (analysisId : String) :=
  store.boundedRows root limit fun projectId =>
    store.evidenceRows projectId (store.scopeNames scope) analysisId

/-- `function_summaries` -/
def functionSummaryPage (functionSymbolId : String) (translationUnitIds : List String) :=
  store.boundedRows root limit fun projectId =>
    store.functionSummaryRows projectId (store.scopeNames scope) functionSymbolId
      translationUnitIds

/-- `interprocedural_flows` -/
def interproceduralFlowPage (summaryId : String) (translationUnitIds : List String) :=
  store.boundedRows root limit fun projectId =>
    store.flowRows projectId (store.scopeNames scope) summaryId translationUnitIds

end Queries

end AnalysisStore

end CppContextEngine.Storage
