import CppContextEngine.Ingestion.CfgContainment
import CppContextEngine.Ingestion.DataFlowFacts

/-!
# Containment of data-flow rows

The base of a location, the location of an access and the two ends of evidence
are in the analysis of the row that names them, and the block and the element
of an access are in the graph of the analysis.
-/

namespace CppContextEngine.Ingestion

open CppContextEngine.Foundation CppContextEngine.Models

/-- A text that a field holds. -/
theorem Record.get_of_textOrNone {fact : Record} {name message text : String}
    (h : fact.textOrNone name message = .ok (some text)) : fact.get name = .text text := by
  unfold Record.textOrNone at h
  cases hvalue : fact.get name with
  | text value =>
      rw [hvalue] at h
      cases h
      rfl
  | _ =>
      rw [hvalue] at h
      cases h

namespace FactContext

variable {ctx : FactContext} {tables : FactTables} {fact : Record}

theorem truthy_of_textOrNone {name message text : String}
    (h : fact.textOrNone name message = .ok (some text)) (hgiven : text ≠ "") :
    ctx.truthy (fact.get name) = true := by
  rw [Record.get_of_textOrNone h]
  simpa [truthy] using hgiven

/-! ## Entries -/

section Entries

variable [NativeLibrary]

theorem dataFlowAnalysisEntry_ok {key : String} {owned : Owned}
    (h : dataFlowAnalysisEntry tables fact = .ok (key, owned)) :
    fact.string "key" = .ok key ∧
      fact.string "graph_key" >>= tables.knownCfgGraph = .ok owned.owner := by
  simp only [dataFlowAnalysisEntry, bind_eq_ok] at h
  obtain ⟨found, hkey, graphKey, hgraphKey, graphId, hgraph, hok⟩ := h
  cases hok
  exact ⟨hkey, bind_eq_ok.mpr ⟨graphKey, hgraphKey, hgraph⟩⟩

theorem memoryLocationEntry_ok {key : String} {owned : Owned}
    (h : memoryLocationEntry tables fact = .ok (key, owned)) :
    fact.string "key" = .ok key ∧
      fact.string "analysis_key" >>= tables.knownDataFlowAnalysis = .ok owned.owner := by
  simp only [memoryLocationEntry, bind_eq_ok] at h
  obtain ⟨found, hkey, analysisKey, hanalysisKey, analysisId, hanalysis, hok⟩ := h
  cases hok
  exact ⟨hkey, bind_eq_ok.mpr ⟨analysisKey, hanalysisKey, hanalysis⟩⟩

/-- A fact enters an access under its key. -/
def EntersAccess (tables : FactTables) (fact : Record) (key : String) (access : Owned) : Prop :=
  fact.string "key" = .ok key ∧
    fact.string "analysis_key" >>= tables.knownDataFlowAnalysis = .ok access.owner

theorem dataAccessStep_ok {state next : DataAccessState}
    (h : dataAccessStep tables state fact = .ok next) :
    ∃ key access, next.1 = state.1.insert key access ∧ EntersAccess tables fact key access := by
  simp only [dataAccessStep, bind_eq_ok] at h
  obtain ⟨key, hkey, analysisKey, hanalysisKey, analysisId, hanalysis, block, -, sequence, -,
    identity, -, hok⟩ := h
  cases hok
  exact ⟨key, _, rfl, hkey, bind_eq_ok.mpr ⟨analysisKey, hanalysisKey, hanalysis⟩⟩

/-- What the loop over accesses enters. -/
theorem foldlM_dataAccessStep_ok {facts : List Record} {final : DataAccessState}
    (h : facts.foldlM (dataAccessStep tables) (∅, ∅) = .ok final) :
    ∀ (key : String) (access : Owned), final.1[key]? = some access →
      ∃ fact ∈ facts, EntersAccess tables fact key access := by
  apply foldlM_invariant ?_ ?_ h
  · intro fact hfact state next hstate hstep key access hget
    obtain ⟨entered, owned, hinsert, henters⟩ := dataAccessStep_ok hstep
    rw [hinsert, Table.getElem?_insert] at hget
    split at hget
    · rename_i hkey
      cases hget
      exact ⟨fact, hfact, hkey ▸ henters⟩
    · exact hstate key access hget
  · intro key access hget
    simp at hget

end Entries

/-! ## Rows -/

theorem dataFlowAnalysisFact_ok {row : DataFlowAnalysis}
    (h : ctx.dataFlowAnalysisFact tables fact = .ok row) :
    fact.string "key" >>= tables.knownDataFlowAnalysis = .ok row.id ∧
      fact.string "graph_key" >>= tables.knownCfgGraph = .ok row.graphId := by
  simp only [dataFlowAnalysisFact, bind_eq_ok] at h
  obtain ⟨reasons, -, limits, -, key, hkey, id, hid, graphKey, hgraphKey, graphId, hgraph,
    complete, -, iterations, -, maxIterations, -, maxTargets, -, maxDepth, -, maxLocations, -,
    hrow⟩ := h
  split at hrow
  · cases hrow
    exact ⟨bind_eq_ok.mpr ⟨key, hkey, hid⟩, bind_eq_ok.mpr ⟨graphKey, hgraphKey, hgraph⟩⟩
  · cases hrow

theorem memoryLocationFact_ok {row : MemoryLocation}
    (h : ctx.memoryLocationFact tables fact = .ok row) :
    fact.string "key" >>= tables.knownMemoryLocation = .ok row.id ∧
      fact.string "analysis_key" >>= tables.knownDataFlowAnalysis = .ok row.analysisId ∧
        fact.string "graph_key" >>= tables.knownCfgGraph = .ok row.graphId ∧
          (∃ key, knownIfGiven tables.knownId key = .ok row.declarationSymbolId) ∧
            ∃ key, fact.textOrNone "base_key" "analyzer memory base key is invalid" = .ok key ∧
              knownIfGiven tables.knownMemoryLocation key = .ok row.baseLocationId := by
  simp only [memoryLocationFact, bind_eq_ok] at h
  obtain ⟨path, -, declarationKey, -, baseKey, hbaseKey, analysisKey, hanalysisKey, analysisId,
    hanalysis, graphKey, hgraphKey, graphId, hgraph, key, hkey, id, hid, kindText, -, kind, -,
    nameText, -, typeName, -, declarationId, hdeclaration, baseId, hbase, isVolatile, -, isAtomic,
    -, name, -, hrow⟩ := h
  split at hrow
  · cases hrow
    exact ⟨bind_eq_ok.mpr ⟨key, hkey, hid⟩,
      bind_eq_ok.mpr ⟨analysisKey, hanalysisKey, hanalysis⟩,
      bind_eq_ok.mpr ⟨graphKey, hgraphKey, hgraph⟩, ⟨declarationKey, hdeclaration⟩,
      baseKey, hbaseKey, hbase⟩
  · cases hrow

theorem dataAccessFact_ok {row : DataAccess} (h : ctx.dataAccessFact tables fact = .ok row) :
    fact.string "key" >>= tables.knownDataAccess = .ok row.id ∧
      fact.string "analysis_key" >>= tables.knownDataFlowAnalysis = .ok row.analysisId ∧
        fact.string "graph_key" >>= tables.knownCfgGraph = .ok row.graphId ∧
          fact.string "block_key" >>= tables.knownCfgBlock = .ok row.blockId ∧
            fact.string "location_key" >>= tables.knownMemoryLocation = .ok row.locationId ∧
              (∃ key, fact.textOrNone "cfg_element_key"
                "analyzer data access CFG element is invalid" = .ok key ∧
                  knownIfGiven tables.knownCfgElement key = .ok row.cfgElementId) ∧
                ∃ keys pointees, List.mapM tables.knownId keys = .ok pointees ∧
                  row.pointeeSymbolIds = (strippedIds pointees).val := by
  simp only [dataAccessFact, bind_eq_ok] at h
  obtain ⟨pointeeKeys, -, elementKey, helementKey, key, hkey, id, hid, analysisKey, hanalysisKey,
    analysisId, hanalysis, graphKey, hgraphKey, graphId, hgraph, blockKey, hblockKey, blockId,
    hblock, elementId, helement, locationKey, hlocationKey, locationId, hlocation, kindText, -,
    kind, -, sequence, -, span, -, expression, -, pointees, hpointees, complete, -, hok⟩ := h
  cases hok
  exact ⟨bind_eq_ok.mpr ⟨key, hkey, hid⟩, bind_eq_ok.mpr ⟨analysisKey, hanalysisKey, hanalysis⟩,
    bind_eq_ok.mpr ⟨graphKey, hgraphKey, hgraph⟩, bind_eq_ok.mpr ⟨blockKey, hblockKey, hblock⟩,
    bind_eq_ok.mpr ⟨locationKey, hlocationKey, hlocation⟩, ⟨elementKey, helementKey, helement⟩,
    pointeeKeys, pointees, hpointees, rfl⟩

/-- Pointees are symbols, up to the blanks around their ids. -/
theorem filedId_of_pointee {tables : FactTables} {keys : List String}
    {pointees : List Identifier} (hfound : List.mapM tables.knownId keys = .ok pointees)
    {id : Identifier} (hid : id ∈ (strippedIds pointees).val) :
    ∃ symbol, FiledId tables.keys symbol ∧ id.val = Storage.strip symbol.val := by
  have hstripped : id ∈ pointees.map stripId := mem_firstPerKey_id.mp hid
  obtain ⟨symbol, hsymbol, rfl⟩ := List.mem_map.mp hstripped
  obtain ⟨key, -, hknown⟩ := (collects_of_mapM hfound).sound symbol hsymbol
  exact ⟨symbol, ⟨key, known_eq_ok.mp hknown⟩, rfl⟩

/-! ## Checked rows -/

theorem checkAnalysisGraph_ok {done : Unit} (h : checkAnalysisGraph tables fact = .ok done) :
    ∃ key graphId, fact.string "analysis_key" = .ok key ∧
      fact.string "graph_key" >>= tables.knownCfgGraph = .ok graphId ∧
        ownerOf tables.dataFlowAnalyses key = some graphId := by
  simp only [checkAnalysisGraph, bind_eq_ok] at h
  obtain ⟨key, hkey, graphKey, hgraphKey, graphId, hgraph, hchecked⟩ := h
  split at hchecked
  · cases hchecked
  · rename_i howner
    exact ⟨key, graphId, hkey, bind_eq_ok.mpr ⟨graphKey, hgraphKey, hgraph⟩, not_not.mp howner⟩

/-- The analysis of a checked row is one of the row's graph. -/
theorem filed_analysis {done : Unit} {analysisId graphId : Identifier}
    (hcheck : checkAnalysisGraph tables fact = .ok done)
    (hanalysis : fact.string "analysis_key" >>= tables.knownDataFlowAnalysis = .ok analysisId)
    (hgraph : fact.string "graph_key" >>= tables.knownCfgGraph = .ok graphId) :
    Filed tables.dataFlowAnalyses analysisId graphId := by
  obtain ⟨key, found, hkey, hfound, howner⟩ := checkAnalysisGraph_ok hcheck
  rw [hgraph] at hfound
  cases hfound
  exact filed_of_reference hanalysis hkey howner

/-! ## Evidence -/

/-- What evidence connects is in the tables. -/
def FiledEnds (tables : FactTables) (analysis : Identifier) : EvidencePair → Prop
  | .accesses source target =>
      Filed tables.dataAccesses source analysis ∧ Filed tables.dataAccesses target analysis
  | .locations source target =>
      Filed tables.memoryLocations source analysis ∧ Filed tables.memoryLocations target analysis

theorem evidenceEnds_contained {relation : DataFlowRelation} {keys : String × String}
    {pair : EvidencePair} {analysisId : Identifier}
    (hends : evidenceEnds tables relation keys = .ok pair)
    (hsource : ownerOf (evidenceTable tables relation) keys.1 = some analysisId)
    (htarget : ownerOf (evidenceTable tables relation) keys.2 = some analysisId) :
    FiledEnds tables analysisId pair := by
  unfold evidenceEnds at hends
  unfold evidenceTable at hsource htarget
  split at hends
  · rename_i haccesses
    rw [if_pos haccesses] at hsource htarget
    obtain ⟨source, hsourceId, hrest⟩ := bind_eq_ok.mp hends
    obtain ⟨target, htargetId, hok⟩ := bind_eq_ok.mp hrest
    cases hok
    exact ⟨filed_of_known hsourceId hsource, filed_of_known htargetId htarget⟩
  · rename_i hlocations
    rw [if_neg hlocations] at hsource htarget
    obtain ⟨source, hsourceId, hrest⟩ := bind_eq_ok.mp hends
    obtain ⟨target, htargetId, hok⟩ := bind_eq_ok.mp hrest
    cases hok
    exact ⟨filed_of_known hsourceId hsource, filed_of_known htargetId htarget⟩

section Checks

variable [NativeLibrary]

theorem checkBase_ok {done : Unit} (h : ctx.checkBase tables fact = .ok done) :
    ∃ analysisId, fact.string "analysis_key" >>= tables.knownDataFlowAnalysis = .ok analysisId ∧
      (ctx.truthy (fact.get "base_key") = true →
        ownerOf tables.memoryLocations (textOf (fact.get "base_key")) = some analysisId) := by
  simp only [checkBase, bind_eq_ok] at h
  obtain ⟨key, hkey, analysisId, hanalysis, hchecked⟩ := h
  split at hchecked
  · cases hchecked
  · rename_i howner
    push Not at howner
    exact ⟨analysisId, bind_eq_ok.mpr ⟨key, hkey, hanalysis⟩, howner⟩

/-- A key that an optional field gives was checked as the field's value. -/
theorem ownerOf_given {table : Table Owned} {name message text : String} {owner : Identifier}
    (htext : fact.textOrNone name message = .ok (some text)) (hgiven : text ≠ "")
    (hchecked : ctx.truthy (fact.get name) = true →
      ownerOf table (textOf (fact.get name)) = some owner) : ownerOf table text = some owner := by
  have howner := hchecked (truthy_of_textOrNone htext hgiven)
  rwa [Record.get_of_textOrNone htext] at howner

/-- The base of a location's row is in the row's analysis. -/
theorem memoryLocationFact_contained {row : MemoryLocation} {done : Unit}
    (hcheck : ctx.checkBase tables fact = .ok done)
    (hrow : ctx.memoryLocationFact tables fact = .ok row) :
    ∀ id ∈ row.baseLocationId, Filed tables.memoryLocations id row.analysisId := by
  intro id hid
  obtain ⟨analysisId, hanalysis, hchecked⟩ := checkBase_ok hcheck
  obtain ⟨-, hanalysisId, -, -, key, hkey, hbase⟩ := memoryLocationFact_ok hrow
  rw [hanalysisId] at hanalysis
  cases hanalysis
  obtain ⟨text, rfl, hgiven, hknown⟩ := knownIfGiven_some hbase hid
  exact filed_of_known hknown (ownerOf_given hkey hgiven hchecked)

theorem checkAccess_ok {done : Unit} (h : ctx.checkAccess tables fact = .ok done) :
    ∃ analysisId graphId location block,
      (fact.string "analysis_key" >>= tables.knownDataFlowAnalysis = .ok analysisId ∧
        fact.string "graph_key" >>= tables.knownCfgGraph = .ok graphId) ∧
      (fact.string "location_key" = .ok location ∧
        ownerOf tables.memoryLocations location = some analysisId) ∧
      (fact.string "block_key" = .ok block ∧ ownerOf tables.cfgBlocks block = some graphId) ∧
      (ctx.truthy (fact.get "cfg_element_key") = true →
        ownerOf tables.cfgElements (textOf (fact.get "cfg_element_key")) = some graphId) := by
  simp only [checkAccess, bind_eq_ok] at h
  obtain ⟨analysisKey, hanalysisKey, analysisId, hanalysis, location, hlocation, h⟩ := h
  split at h
  · cases h
  rename_i hlocationOwner
  obtain ⟨graphKey, hgraphKey, h⟩ := bind_eq_ok.mp h
  obtain ⟨graphId, hgraph, h⟩ := bind_eq_ok.mp h
  obtain ⟨block, hblock, h⟩ := bind_eq_ok.mp h
  split at h
  · cases h
  rename_i hblockOwner
  split at h
  · cases h
  rename_i helementOwner
  push Not at hlocationOwner hblockOwner helementOwner
  exact ⟨analysisId, graphId, location, block,
    ⟨bind_eq_ok.mpr ⟨analysisKey, hanalysisKey, hanalysis⟩,
      bind_eq_ok.mpr ⟨graphKey, hgraphKey, hgraph⟩⟩,
    ⟨hlocation, hlocationOwner⟩, ⟨hblock, hblockOwner⟩, helementOwner⟩

/-- The location of an access is in its analysis, its block and its element in its graph. -/
theorem dataAccessFact_contained {row : DataAccess} {done : Unit}
    (hcheck : ctx.checkAccess tables fact = .ok done)
    (hrow : ctx.dataAccessFact tables fact = .ok row) :
    Filed tables.memoryLocations row.locationId row.analysisId ∧
      Filed tables.cfgBlocks row.blockId row.graphId ∧
        ∀ id ∈ row.cfgElementId, Filed tables.cfgElements id row.graphId := by
  obtain ⟨analysisId, graphId, location, block, ⟨hanalysis, hgraph⟩, ⟨hlocation, hlocationOwner⟩,
    ⟨hblock, hblockOwner⟩, helement⟩ := checkAccess_ok hcheck
  obtain ⟨-, hanalysisId, hgraphId, hblockId, hlocationId, ⟨key, hkey, helementId⟩, -⟩ :=
    dataAccessFact_ok hrow
  rw [hanalysisId] at hanalysis
  cases hanalysis
  rw [hgraphId] at hgraph
  cases hgraph
  refine ⟨filed_of_reference hlocationId hlocation hlocationOwner,
    filed_of_reference hblockId hblock hblockOwner, ?_⟩
  intro id hid
  obtain ⟨text, rfl, hgiven, hknown⟩ := knownIfGiven_some helementId hid
  exact filed_of_known hknown (ownerOf_given hkey hgiven helement)

/-- Evidence is in an analysis of its graph, with both its ends. -/
theorem dataFlowEvidenceFact_contained {row : DataFlowEvidence}
    (h : ctx.dataFlowEvidenceFact tables fact = .ok row) :
    Filed tables.dataFlowAnalyses row.analysisId row.graphId ∧
      FiledEnds tables row.analysisId row.pair := by
  simp only [dataFlowEvidenceFact, bind_eq_ok] at h
  obtain ⟨keys, -, key, -, analysisKey, -, analysisId, hanalysis, graphKey, -, graphId, -, h⟩ := h
  split at h
  · cases h
  rename_i hgraphOwner
  obtain ⟨relationText, -, h⟩ := bind_eq_ok.mp h
  obtain ⟨relation, -, h⟩ := bind_eq_ok.mp h
  obtain ⟨pair, -, h⟩ := bind_eq_ok.mp h
  split at h
  · cases h
  rename_i hends
  simp only [bind_eq_ok] at h
  obtain ⟨rowKey, -, certaintyText, -, certainty, -, reasonText, -, ends, hendIds, span, -,
    reason, -, hok⟩ := h
  cases hok
  push Not at hgraphOwner hends
  exact ⟨filed_of_known hanalysis hgraphOwner, evidenceEnds_contained hendIds hends.1 hends.2⟩

end Checks

/-! ## The pass -/

/-- What the pass enters has rows, and what its rows refer to is entered. -/
structure DataFlowContained (after : FactTables) (rows : DataFlowRows) : Prop where
  analysesShown : Shown after.dataFlowAnalyses rows.analyses DataFlowAnalysis.id
    DataFlowAnalysis.graphId
  locationsShown : Shown after.memoryLocations rows.locations MemoryLocation.id
    MemoryLocation.analysisId
  accessesShown : Shown after.dataAccesses rows.accesses DataAccess.id DataAccess.analysisId
  analyses : ∀ row ∈ rows.analyses, ∃ function, Filed after.cfgGraphs row.graphId function
  locations : ∀ row ∈ rows.locations, Filed after.dataFlowAnalyses row.analysisId row.graphId ∧
    (∀ id ∈ row.declarationSymbolId, FiledId after.keys id) ∧
      ∀ id ∈ row.baseLocationId, Filed after.memoryLocations id row.analysisId
  accesses : ∀ row ∈ rows.accesses, Filed after.dataFlowAnalyses row.analysisId row.graphId ∧
    (Filed after.memoryLocations row.locationId row.analysisId ∧
      Filed after.cfgBlocks row.blockId row.graphId ∧
        ∀ id ∈ row.cfgElementId, Filed after.cfgElements id row.graphId) ∧
      ∀ id ∈ row.pointeeSymbolIds, ∃ symbol, FiledId after.keys symbol ∧
        id.val = Storage.strip symbol.val
  evidence : ∀ row ∈ rows.evidence, Filed after.dataFlowAnalyses row.analysisId row.graphId ∧
    FiledEnds after row.analysisId row.pair

section Pass

variable [NativeLibrary]

/-- What the loops over analyses, locations and accesses enter. -/
structure DataFlowFilled (after : FactTables)
    (analysisFacts locationFacts accessFacts : List Record) : Prop where
  analyses : fillTable analysisFacts (dataFlowAnalysisEntry after) = .ok after.dataFlowAnalyses
  locations : fillTable locationFacts (memoryLocationEntry after) = .ok after.memoryLocations
  accesses : ∀ (key : String) (access : Owned), after.dataAccesses[key]? = some access →
    ∃ fact ∈ accessFacts, EntersAccess after fact key access

variable {before after : FactTables} {facts analysisFacts locationFacts accessFacts : List Record}
  {rows : DataFlowRows}

theorem dataFlowTables_ok
    (h : dataFlowTables before analysisFacts locationFacts accessFacts = .ok after) :
    (∃ dataFlowAnalyses memoryLocations dataAccesses dataAccessIdentityKeys,
      after = { before with
        dataFlowAnalyses, memoryLocations, dataAccesses, dataAccessIdentityKeys }) ∧
      DataFlowFilled after analysisFacts locationFacts accessFacts := by
  simp only [dataFlowTables, bind_eq_ok] at h
  obtain ⟨analyses, hanalyses, locations, hlocations, accesses, haccesses, hok⟩ := h
  cases hok
  refine ⟨⟨analyses, locations, accesses.1, accesses.2, rfl⟩, ?_⟩
  exact {
    analyses := hanalyses
    locations := hlocations
    accesses := foldlM_dataAccessStep_ok haccesses }

/-- What the pass has checked, and where its rows come from. -/
structure DataFlowRead (ctx : FactContext) (tables : FactTables)
    (facts analysisFacts locationFacts accessFacts : List Record) (rows : DataFlowRows) : Prop where
  checkedGraphs : ∀ fact ∈ locationFacts ++ accessFacts, ∃ done,
    checkAnalysisGraph tables fact = .ok done
  checkedBases : ∀ fact ∈ locationFacts, ∃ done, ctx.checkBase tables fact = .ok done
  checkedAccesses : ∀ fact ∈ accessFacts, ∃ done, ctx.checkAccess tables fact = .ok done
  analyses : Collects (ctx.dataFlowAnalysisFact tables) analysisFacts rows.analyses
  locations : Collects (ctx.memoryLocationFact tables) locationFacts rows.locations
  accesses : Collects (ctx.dataAccessFact tables) accessFacts rows.accesses
  evidence : Collects (tables.fromRaw (ctx.dataFlowEvidenceFact tables))
    (factRecords facts "data_flow_evidence_v1") rows.evidence

theorem dataFlowFacts_ok (h : ctx.dataFlowFacts before facts = .ok (after, rows)) :
    ∃ analysisFacts locationFacts accessFacts,
      dataFlowTables before analysisFacts locationFacts accessFacts = .ok after ∧
        DataFlowRead ctx after facts analysisFacts locationFacts accessFacts rows := by
  simp only [dataFlowFacts, bind_eq_ok] at h
  obtain ⟨analysisFacts, -, locationFacts, -, accessFacts, -, tables, hfilled, _, hgraphs, _,
    hbases, _, haccesses, made, hrows, hok⟩ := h
  cases hok
  simp only [translateValue, mapError_eq_ok, dataFlowRows, bind_eq_ok] at hrows
  obtain ⟨analyses, hanalyses, locations, hlocations, accesses, haccessRows, evidence, hevidence,
    hmade⟩ := hrows
  cases hmade
  refine ⟨analysisFacts, locationFacts, accessFacts, hfilled, ?_⟩
  exact {
    checkedGraphs := fun fact hfact =>
      ((collects_of_mapM hgraphs).complete fact hfact).imp fun _ hdone => hdone.2
    checkedBases := fun fact hfact =>
      ((collects_of_mapM hbases).complete fact hfact).imp fun _ hdone => hdone.2
    checkedAccesses := fun fact hfact =>
      ((collects_of_mapM haccesses).complete fact hfact).imp fun _ hdone => hdone.2
    analyses := collects_sortBy _ hanalyses
    locations := collects_sortBy _ hlocations
    accesses := collects_sortBy _ haccessRows
    evidence := collects_sortBy _ hevidence }

theorem analysesShown_of_read
    (hfilled : DataFlowFilled after analysisFacts locationFacts accessFacts)
    (hread : DataFlowRead ctx after facts analysisFacts locationFacts accessFacts rows) :
    Shown after.dataFlowAnalyses rows.analyses DataFlowAnalysis.id DataFlowAnalysis.graphId := by
  apply shown_of_fillTable hfilled.analyses hread.analyses
  intro fact key owned row hentry hget hrow
  obtain ⟨hkey, hgraph⟩ := dataFlowAnalysisEntry_ok hentry
  obtain ⟨hid, hgraphId⟩ := dataFlowAnalysisFact_ok hrow
  exact ⟨id_of_reference hid hkey hget, Except.ok.inj (hgraphId.symm.trans hgraph)⟩

theorem locationsShown_of_read
    (hfilled : DataFlowFilled after analysisFacts locationFacts accessFacts)
    (hread : DataFlowRead ctx after facts analysisFacts locationFacts accessFacts rows) :
    Shown after.memoryLocations rows.locations MemoryLocation.id MemoryLocation.analysisId := by
  apply shown_of_fillTable hfilled.locations hread.locations
  intro fact key owned row hentry hget hrow
  obtain ⟨hkey, hanalysis⟩ := memoryLocationEntry_ok hentry
  obtain ⟨hid, hanalysisId, -⟩ := memoryLocationFact_ok hrow
  exact ⟨id_of_reference hid hkey hget, Except.ok.inj (hanalysisId.symm.trans hanalysis)⟩

theorem accessesShown_of_read
    (hfilled : DataFlowFilled after analysisFacts locationFacts accessFacts)
    (hread : DataFlowRead ctx after facts analysisFacts locationFacts accessFacts rows) :
    Shown after.dataAccesses rows.accesses DataAccess.id DataAccess.analysisId := by
  rintro id owner ⟨key, hget⟩
  obtain ⟨fact, hfact, hkey, hanalysis⟩ := hfilled.accesses key _ hget
  obtain ⟨row, hrow, hmade⟩ := hread.accesses.complete fact hfact
  obtain ⟨hid, hanalysisId, -⟩ := dataAccessFact_ok hmade
  exact ⟨row, hrow, id_of_reference hid hkey hget,
    Except.ok.inj (hanalysisId.symm.trans hanalysis)⟩

theorem dataFlowContained_of_read
    (hfilled : DataFlowFilled after analysisFacts locationFacts accessFacts)
    (hread : DataFlowRead ctx after facts analysisFacts locationFacts accessFacts rows) :
    DataFlowContained after rows where
  analysesShown := analysesShown_of_read hfilled hread
  locationsShown := locationsShown_of_read hfilled hread
  accessesShown := accessesShown_of_read hfilled hread
  analyses := by
    intro row hrow
    obtain ⟨fact, -, hmade⟩ := hread.analyses.sound row hrow
    exact exists_filed_of_reference (dataFlowAnalysisFact_ok hmade).2
  locations := by
    intro row hrow
    obtain ⟨fact, hfact, hmade⟩ := hread.locations.sound row hrow
    obtain ⟨_, hgraph⟩ := hread.checkedGraphs fact (List.mem_append_left _ hfact)
    obtain ⟨_, hbase⟩ := hread.checkedBases fact hfact
    obtain ⟨-, hanalysisId, hgraphId, ⟨key, hdeclaration⟩, -⟩ := memoryLocationFact_ok hmade
    refine ⟨filed_analysis hgraph hanalysisId hgraphId, ?_,
      memoryLocationFact_contained hbase hmade⟩
    intro id hid
    obtain ⟨text, -, -, hknown⟩ := knownIfGiven_some hdeclaration hid
    exact ⟨text, known_eq_ok.mp hknown⟩
  accesses := by
    intro row hrow
    obtain ⟨fact, hfact, hmade⟩ := hread.accesses.sound row hrow
    obtain ⟨_, hgraph⟩ := hread.checkedGraphs fact (List.mem_append_right _ hfact)
    obtain ⟨_, haccess⟩ := hread.checkedAccesses fact hfact
    obtain ⟨-, hanalysisId, hgraphId, -, -, -, keys, pointees, hpointees, hkept⟩ :=
      dataAccessFact_ok hmade
    refine ⟨filed_analysis hgraph hanalysisId hgraphId, dataAccessFact_contained haccess hmade, ?_⟩
    intro id hid
    exact filedId_of_pointee hpointees (hkept ▸ hid)
  evidence := by
    intro row hrow
    obtain ⟨raw, -, hmade⟩ := hread.evidence.sound row hrow
    obtain ⟨fact, -, hrowFact⟩ := fromRaw_eq_ok.mp hmade
    exact dataFlowEvidenceFact_contained hrowFact

theorem dataFlowFacts_contained (h : ctx.dataFlowFacts before facts = .ok (after, rows)) :
    (∃ dataFlowAnalyses memoryLocations dataAccesses dataAccessIdentityKeys,
      after = { before with
        dataFlowAnalyses, memoryLocations, dataAccesses, dataAccessIdentityKeys }) ∧
      DataFlowContained after rows := by
  obtain ⟨analysisFacts, locationFacts, accessFacts, htables, hread⟩ := dataFlowFacts_ok h
  obtain ⟨hframe, hfilled⟩ := dataFlowTables_ok htables
  exact ⟨hframe, dataFlowContained_of_read hfilled hread⟩

end Pass

end FactContext

end CppContextEngine.Ingestion
