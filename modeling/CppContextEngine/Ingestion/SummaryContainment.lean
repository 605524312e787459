import CppContextEngine.Ingestion.DataFlowContainment
import CppContextEngine.Ingestion.SummaryFacts

/-!
# Containment of summary rows

The locations and the accesses that the rows of a summary name are in the
analysis of the summary, and their parameters are among its parameters.
-/

namespace CppContextEngine.Ingestion

open CppContextEngine.Foundation CppContextEngine.Models

/-- A summary is entered with a parameter, and with a location and an access of its analysis. -/
def FiledSummary (tables : FactTables) (id : String) (parameter : Option Nat)
    (location access : Option String) : Prop :=
  ∃ (key : String) (entry : SummaryEntry), tables.functionSummaries[key]? = some entry ∧
    entry.id.val = id ∧ (∀ index ∈ parameter, index < entry.parameterCount) ∧
      (∀ id ∈ location, ∃ found : Identifier, found.val = id ∧
        Filed tables.memoryLocations found entry.analysisId) ∧
        ∀ id ∈ access, ∃ found : Identifier, found.val = id ∧
          Filed tables.dataAccesses found entry.analysisId

namespace FactContext

variable {ctx : FactContext} {tables : FactTables} {fact : Record}

/-! ## Checks -/

theorem knownFunctionSummary_ok {key : String} {id : Identifier} {entry : SummaryEntry}
    (hid : tables.knownFunctionSummary key = .ok id)
    (hget : tables.functionSummaries[key]? = some entry) : entry.id = id := by
  obtain ⟨other, hother, rfl⟩ := map_eq_ok.mp hid
  rw [known_eq_ok.mp hother] at hget
  cases hget
  rfl

theorem optionalId_some {find : String → Except IngestError Identifier} {key found : Option String}
    (h : optionalId find key = .ok found) {id : String} (hid : id ∈ found) :
    ∃ text identifier, key = some text ∧ find text = .ok identifier ∧ identifier.val = id := by
  cases key with
  | none =>
      cases h
      cases hid
  | some text =>
      obtain ⟨identifier, hfound, rfl⟩ := map_eq_ok.mp h
      cases hid
      exact ⟨text, identifier, rfl, hfound, rfl⟩

theorem validateSummaryAnalysis_ok {key : String} {locationKey accessKey : Option String}
    {done : Unit} (h : validateSummaryAnalysis tables key locationKey accessKey = .ok done) :
    ∃ entry, tables.functionSummaries[key]? = some entry ∧
      (∀ text ∈ locationKey, ownerOf tables.memoryLocations text = some entry.analysisId) ∧
        ∀ text ∈ accessKey, ownerOf tables.dataAccesses text = some entry.analysisId := by
  unfold validateSummaryAnalysis at h
  split at h
  · cases h
  · rename_i entry hget
    split at h
    · cases h
    · rename_i howners
      push Not at howners
      exact ⟨entry, hget, howners⟩

theorem summaryParameter_ok {key message : String} {parameter : Option Nat} {entry : SummaryEntry}
    (h : summaryParameter tables fact key message = .ok parameter)
    (hget : tables.functionSummaries[key]? = some entry) :
    ∀ index ∈ parameter, index < entry.parameterCount := by
  simp only [summaryParameter, bind_eq_ok, throwIf_eq_ok, known_eq_ok] at h
  obtain ⟨index, -, other, hother, -, hbound, hok⟩ := h
  cases hok
  rw [hget] at hother
  cases hother
  push Not at hbound
  exact hbound

/-- What the checks of a row say together. -/
theorem filedSummary_of_checks {key : String} {summaryId : Identifier}
    {locationKey accessKey location access : Option String} {parameter : Option Nat} {done : Unit}
    (hid : tables.knownFunctionSummary key = .ok summaryId)
    (hvalid : validateSummaryAnalysis tables key locationKey accessKey = .ok done)
    (hparameter : ∀ entry, tables.functionSummaries[key]? = some entry →
      ∀ index ∈ parameter, index < entry.parameterCount)
    (hlocation : optionalId tables.knownMemoryLocation locationKey = .ok location)
    (haccess : optionalId tables.knownDataAccess accessKey = .ok access) :
    FiledSummary tables summaryId.val parameter location access := by
  obtain ⟨entry, hget, hlocations, haccesses⟩ := validateSummaryAnalysis_ok hvalid
  refine ⟨key, entry, hget, by rw [knownFunctionSummary_ok hid hget], hparameter entry hget, ?_, ?_⟩
  · intro id hid
    obtain ⟨text, found, rfl, hfound, hval⟩ := optionalId_some hlocation hid
    exact ⟨found, hval, filed_of_known hfound (hlocations text rfl)⟩
  · intro id hid
    obtain ⟨text, found, rfl, hfound, hval⟩ := optionalId_some haccess hid
    exact ⟨found, hval, filed_of_known hfound (haccesses text rfl)⟩

/-- A callsite that a key gives. -/
theorem filedId_of_optional {key found : Option String}
    (h : optionalId tables.knownCallsite key = .ok found) :
    ∀ id ∈ found, ∃ site : Identifier, FiledId tables.callsiteIds site ∧ site.val = id := by
  intro id hid
  obtain ⟨text, site, -, hfound, hval⟩ := optionalId_some h hid
  exact ⟨site, ⟨text, known_eq_ok.mp hfound⟩, hval⟩

/-! ## Rows of summaries -/

section Rows

variable [NativeLibrary]

theorem summaryEffectFact_contained {row : SummaryEffect}
    (h : ctx.summaryEffectFact tables fact = .ok row) :
    FiledSummary tables row.summaryId row.parameterIndex row.locationId row.sourceAccessId := by
  simp only [summaryEffectFact, bind_eq_ok] at h
  obtain ⟨summaryKey, -, summaryId, hsummary, locationKey, -, accessKey, -, done, hvalid, key, -,
    parameter, hparameter, kindText, -, kind, -, locationText, -, locationKind, -, certaintyText,
    -, certainty, -, reasonText, -, path, -, location, hlocation, access, haccess, reason, -,
    hok⟩ := h
  cases hok
  exact filedSummary_of_checks hsummary hvalid (fun _ hget => summaryParameter_ok hparameter hget)
    hlocation haccess

theorem summaryReturnOriginFact_contained {row : SummaryReturnOrigin}
    (h : ctx.summaryReturnOriginFact tables fact = .ok row) :
    FiledSummary tables row.summaryId row.parameterIndex row.locationId none ∧
      ∀ id ∈ row.callsiteId, ∃ site : Identifier, FiledId tables.callsiteIds site ∧
        site.val = id := by
  simp only [summaryReturnOriginFact, bind_eq_ok] at h
  obtain ⟨summaryKey, -, summaryId, hsummary, locationKey, -, done, hvalid, siteKey, -, kindText,
    -, key, -, parameter, hparameter, originText, -, kind, -, certaintyText, -, certainty, -,
    reasonText, -, locationKind, -, path, -, location, hlocation, site, hsite, reason, -, h⟩ := h
  split at h
  · cases h
    exact ⟨filedSummary_of_checks hsummary hvalid
      (fun _ hget => summaryParameter_ok hparameter hget) hlocation rfl, filedId_of_optional hsite⟩
  · cases h

theorem callArgumentBindingFact_contained {row : CallArgumentBinding}
    (h : ctx.callArgumentBindingFact tables fact = .ok row) :
    FiledSummary tables row.callerSummaryId row.parameterIndex row.locationId none ∧
      ∃ site : Identifier, FiledId tables.callsiteIds site ∧ site.val = row.callsiteId := by
  simp only [callArgumentBindingFact, bind_eq_ok] at h
  obtain ⟨summaryKey, -, summaryId, hsummary, locationKey, -, done, hvalid, complete, -, reason, -,
    h⟩ := h
  split at h
  · simp only [bind_eq_ok] at h
    obtain ⟨siteKey, -, site, hsite, argument, -, parameter, hparameter, location, hlocation,
      kindText, -, kind, -, path, -, writeback, -, hok⟩ := h
    cases hok
    exact ⟨filedSummary_of_checks hsummary hvalid
      (fun _ hget => summaryParameter_ok hparameter hget) hlocation rfl,
      site, ⟨siteKey, known_eq_ok.mp hsite⟩, rfl⟩
  · cases h

theorem callResultBindingFact_contained {row : CallResultBinding}
    (h : ctx.callResultBindingFact tables fact = .ok row) :
    FiledSummary tables row.callerSummaryId none (some row.locationId)
      (some row.definitionAccessId) ∧
      ∃ site : Identifier, FiledId tables.callsiteIds site ∧ site.val = row.callsiteId := by
  simp only [callResultBindingFact, bind_eq_ok] at h
  obtain ⟨summaryKey, -, summaryId, hsummary, locationKey, -, accessKey, -, done, hvalid, siteKey,
    -, site, hsite, location, hlocation, access, haccess, hok⟩ := h
  cases hok
  exact ⟨filedSummary_of_checks hsummary hvalid (by simp) (by simp [optionalId, hlocation])
    (by simp [optionalId, haccess]), site, ⟨siteKey, known_eq_ok.mp hsite⟩, rfl⟩

/-- What an entry of a summary has checked. -/
structure SummaryEntered (tables : FactTables) (fact : Record) (key : String)
    (entry : SummaryEntry) : Prop where
  key : fact.string "key" = .ok key
  analysis : fact.string "analysis_key" >>= tables.knownDataFlowAnalysis = .ok entry.analysisId
  modes : ∃ modes, fact.stringList "parameter_modes" = .ok modes ∧
    entry.parameterCount = modes.length
  graph : ∃ graphId functionId, fact.string "graph_key" >>= tables.knownCfgGraph = .ok graphId ∧
    fact.string "function_key" >>= tables.knownId = .ok functionId ∧
      Filed tables.dataFlowAnalyses entry.analysisId graphId ∧
        Filed tables.cfgGraphs graphId functionId

theorem functionSummaryEntry_ok {key : String} {entry : SummaryEntry}
    (h : ctx.functionSummaryEntry tables fact = .ok (key, entry)) :
    SummaryEntered tables fact key entry := by
  simp only [functionSummaryEntry, bind_eq_ok] at h
  obtain ⟨found, hkey, analysisKey, hanalysisKey, analysisId, hanalysis, graphKey, hgraphKey,
    graphId, hgraph, h⟩ := h
  split at h
  · cases h
  rename_i hanalysisOwner
  obtain ⟨functionKey, hfunctionKey, h⟩ := bind_eq_ok.mp h
  obtain ⟨functionId, hfunction, h⟩ := bind_eq_ok.mp h
  split at h
  · cases h
  rename_i hgraphOwner
  obtain ⟨modes, hmodes, hok⟩ := bind_eq_ok.mp h
  cases hok
  push Not at hanalysisOwner hgraphOwner
  exact {
    key := hkey
    analysis := bind_eq_ok.mpr ⟨analysisKey, hanalysisKey, hanalysis⟩
    modes := ⟨modes, hmodes, rfl⟩
    graph := ⟨graphId, functionId, bind_eq_ok.mpr ⟨graphKey, hgraphKey, hgraph⟩,
      bind_eq_ok.mpr ⟨functionKey, hfunctionKey, hfunction⟩,
      filed_of_known hanalysis hanalysisOwner, filed_of_known hgraph hgraphOwner⟩ }

end Rows

/-- What the row of a summary says. -/
structure SummaryMade (tables : FactTables) (fact : Record) (row : FunctionSummary) : Prop where
  id : ∃ id : Identifier, id.val = row.id ∧
    fact.string "key" >>= tables.knownFunctionSummary = .ok id
  function : ∃ functionId : Identifier, functionId.val = row.functionSymbolId ∧
    fact.string "function_key" >>= tables.knownId = .ok functionId
  graph : ∃ graphId : Identifier, graphId.val = row.graphId ∧
    fact.string "graph_key" >>= tables.knownCfgGraph = .ok graphId
  analysis : ∃ analysisId : Identifier, analysisId.val = row.analysisId ∧
    fact.string "analysis_key" >>= tables.knownDataFlowAnalysis = .ok analysisId ∧
      ∀ id ∈ row.parameterLocationIds, ∃ location : Identifier, location.val = id ∧
        Filed tables.memoryLocations location analysisId
  modes : fact.stringList "parameter_modes" = .ok row.parameterModes
  parameters : row.parameterLocationIds.length = row.parameterModes.length

theorem functionSummaryFact_ok {row : FunctionSummary}
    (h : ctx.functionSummaryFact tables fact = .ok row) : SummaryMade tables fact row := by
  simp only [functionSummaryFact, bind_eq_ok] at h
  obtain ⟨key, hkey, modes, hmodes, locationKeys, -, reasons, -, complete, -, _, hshape,
    analysisKey, hanalysisKey, analysisId, hanalysis, h⟩ := h
  split at h
  · cases h
  rename_i howners
  simp only [bind_eq_ok] at h
  obtain ⟨id, hid, functionKey, hfunctionKey, functionId, hfunction, graphKey, hgraphKey, graphId,
    hgraph, locations, hlocations, h⟩ := h
  split at h
  · cases h
    push Not at howners
    have hlength := (mapM_ok_iff.mp hlocations).length_eq
    have hmodesLength := throwIf_eq_ok.mp hshape
    exact {
      id := ⟨id, rfl, bind_eq_ok.mpr ⟨key, hkey, hid⟩⟩
      function := ⟨functionId, rfl, bind_eq_ok.mpr ⟨functionKey, hfunctionKey, hfunction⟩⟩
      graph := ⟨graphId, rfl, bind_eq_ok.mpr ⟨graphKey, hgraphKey, hgraph⟩⟩
      analysis := by
        refine ⟨analysisId, rfl, bind_eq_ok.mpr ⟨analysisKey, hanalysisKey, hanalysis⟩, ?_⟩
        intro text htext
        obtain ⟨location, hlocation, rfl⟩ := List.mem_map.mp htext
        obtain ⟨locationKey, hmem, hknown⟩ :=
          (collects_of_mapM hlocations).sound location hlocation
        exact ⟨location, rfl, filed_of_known hknown (howners locationKey hmem)⟩
      modes := hmodes
      parameters := by
        simp only [List.length_map]
        omega }
  · cases h

/-- A summary is one of the function of its graph, and of an analysis of the graph. -/
def FiledParts (tables : FactTables) (row : FunctionSummary) : Prop :=
  ∃ functionId graphId analysisId : Identifier, functionId.val = row.functionSymbolId ∧
    graphId.val = row.graphId ∧ analysisId.val = row.analysisId ∧ FiledId tables.keys functionId ∧
      Filed tables.cfgGraphs graphId functionId ∧ Filed tables.dataFlowAnalyses analysisId graphId ∧
        ∀ id ∈ row.parameterLocationIds, ∃ location : Identifier, location.val = id ∧
          Filed tables.memoryLocations location analysisId

theorem functionSummaryFact_contained {key : String} {entry : SummaryEntry}
    {row : FunctionSummary} (hentered : SummaryEntered tables fact key entry)
    (hmade : SummaryMade tables fact row) : FiledParts tables row := by
  obtain ⟨graphId, functionId, hgraph, hfunction, hanalysisGraph, hgraphFunction⟩ := hentered.graph
  obtain ⟨rowFunction, hfunctionVal, hrowFunction⟩ := hmade.function
  obtain ⟨rowGraph, hgraphVal, hrowGraph⟩ := hmade.graph
  obtain ⟨rowAnalysis, hanalysisVal, hrowAnalysis, hlocations⟩ := hmade.analysis
  obtain rfl := Except.ok.inj (hrowFunction.symm.trans hfunction)
  obtain rfl := Except.ok.inj (hrowGraph.symm.trans hgraph)
  obtain rfl := Except.ok.inj (hrowAnalysis.symm.trans hentered.analysis)
  exact ⟨rowFunction, rowGraph, entry.analysisId, hfunctionVal, hgraphVal, hanalysisVal,
    filedId_of_reference hfunction, hgraphFunction, hanalysisGraph, hlocations⟩

/-- The row of an entered summary says what the entry says. -/
theorem summaryMade_agrees {key : String} {entry : SummaryEntry} {row : FunctionSummary}
    (hentered : SummaryEntered tables fact key entry)
    (hget : tables.functionSummaries[key]? = some entry) (hmade : SummaryMade tables fact row) :
    row.id = entry.id.val ∧ row.analysisId = entry.analysisId.val ∧
      row.parameterModes.length = entry.parameterCount := by
  obtain ⟨id, hidVal, hid⟩ := hmade.id
  obtain ⟨analysisId, hanalysisVal, hanalysis, -⟩ := hmade.analysis
  obtain ⟨modes, hmodes, hcount⟩ := hentered.modes
  obtain ⟨found, hfound, hknown⟩ := bind_eq_ok.mp hid
  obtain rfl := Except.ok.inj (hfound.symm.trans hentered.key)
  obtain rfl := Except.ok.inj (hanalysis.symm.trans hentered.analysis)
  obtain rfl := Except.ok.inj (hmodes.symm.trans hmade.modes)
  exact ⟨by rw [← hidVal, knownFunctionSummary_ok hknown hget], hanalysisVal.symm, hcount.symm⟩

/-! ## The pass -/

/-- What the pass enters has rows, and what its rows refer to is entered. -/
structure SummariesContained (after : FactTables) (rows : SummaryRows) : Prop where
  summariesShown : ∀ (key : String) (entry : SummaryEntry),
    after.functionSummaries[key]? = some entry → ∃ row ∈ rows.summaries, row.id = entry.id.val ∧
      row.analysisId = entry.analysisId.val ∧ row.parameterModes.length = entry.parameterCount
  summaries : ∀ row ∈ rows.summaries, FiledParts after row ∧
    row.parameterLocationIds.length = row.parameterModes.length
  effects : ∀ row ∈ rows.effects,
    FiledSummary after row.summaryId row.parameterIndex row.locationId row.sourceAccessId
  origins : ∀ row ∈ rows.origins,
    FiledSummary after row.summaryId row.parameterIndex row.locationId none ∧
      ∀ id ∈ row.callsiteId, ∃ site : Identifier, FiledId after.callsiteIds site ∧ site.val = id
  arguments : ∀ row ∈ rows.arguments,
    FiledSummary after row.callerSummaryId row.parameterIndex row.locationId none ∧
      ∃ site : Identifier, FiledId after.callsiteIds site ∧ site.val = row.callsiteId
  results : ∀ row ∈ rows.results,
    FiledSummary after row.callerSummaryId none (some row.locationId)
      (some row.definitionAccessId) ∧
        ∃ site : Identifier, FiledId after.callsiteIds site ∧ site.val = row.callsiteId

section Pass

variable [NativeLibrary]

/-- What the pass has entered, and where its rows come from. -/
structure SummariesRead (ctx : FactContext) (after : FactTables) (facts summaryFacts : List Record)
    (rows : SummaryRows) : Prop where
  filled : fillTable summaryFacts (ctx.functionSummaryEntry after) = .ok after.functionSummaries
  summaries : Collects (ctx.functionSummaryFact after) summaryFacts rows.summaries
  effects : Collects (after.fromRaw (ctx.summaryEffectFact after))
    (factRecords facts "summary_effect_v1") rows.effects
  origins : Collects (after.fromRaw (ctx.summaryReturnOriginFact after))
    (factRecords facts "summary_return_origin_v1") rows.origins
  arguments : Collects (after.fromRaw (ctx.callArgumentBindingFact after))
    (factRecords facts "call_argument_binding_v1") rows.arguments
  results : Collects (after.fromRaw (ctx.callResultBindingFact after))
    (factRecords facts "call_result_binding_v1") rows.results

variable {before after : FactTables} {facts summaryFacts : List Record} {rows : SummaryRows}

theorem interproceduralFacts_ok (h : ctx.interproceduralFacts before facts = .ok (after, rows)) :
    (∃ functionSummaries, after = { before with functionSummaries }) ∧
      ∃ summaryFacts, SummariesRead ctx after facts summaryFacts rows := by
  simp only [interproceduralFacts, bind_eq_ok] at h
  obtain ⟨summaryFacts, -, summaries, hfilled, left, hrows, hok⟩ := h
  cases hok
  simp only [translateValue, mapError_eq_ok, summaryRows, bind_eq_ok] at hrows
  obtain ⟨made, hmade, effects, heffects, origins, horigins, arguments, harguments, results,
    hresults, hrows⟩ := hrows
  cases hrows
  exact ⟨⟨summaries, rfl⟩, summaryFacts, {
    filled := hfilled
    summaries := collects_sortBy _ hmade
    effects := collects_sortBy _ heffects
    origins := collects_sortBy _ horigins
    arguments := collects_sortBy _ harguments
    results := collects_sortBy _ hresults }⟩

theorem summariesContained_of_read (hread : SummariesRead ctx after facts summaryFacts rows) :
    SummariesContained after rows where
  summariesShown := by
    intro key entry hget
    obtain ⟨fact, hfact, hentry⟩ := entry_of_fillTable hread.filled key entry hget
    obtain ⟨row, hrow, hmade⟩ := hread.summaries.complete fact hfact
    exact ⟨row, hrow,
      summaryMade_agrees (functionSummaryEntry_ok hentry) hget (functionSummaryFact_ok hmade)⟩
  summaries := by
    intro row hrow
    obtain ⟨fact, hfact, hrowFact⟩ := hread.summaries.sound row hrow
    obtain ⟨⟨key, entry⟩, hentry⟩ := exists_entry_of_fillTable hread.filled fact hfact
    have hmade := functionSummaryFact_ok hrowFact
    exact ⟨functionSummaryFact_contained (functionSummaryEntry_ok hentry) hmade, hmade.parameters⟩
  effects := by
    intro row hrow
    obtain ⟨raw, -, hmade⟩ := hread.effects.sound row hrow
    obtain ⟨fact, -, hrowFact⟩ := fromRaw_eq_ok.mp hmade
    exact summaryEffectFact_contained hrowFact
  origins := by
    intro row hrow
    obtain ⟨raw, -, hmade⟩ := hread.origins.sound row hrow
    obtain ⟨fact, -, hrowFact⟩ := fromRaw_eq_ok.mp hmade
    exact summaryReturnOriginFact_contained hrowFact
  arguments := by
    intro row hrow
    obtain ⟨raw, -, hmade⟩ := hread.arguments.sound row hrow
    obtain ⟨fact, -, hrowFact⟩ := fromRaw_eq_ok.mp hmade
    exact callArgumentBindingFact_contained hrowFact
  results := by
    intro row hrow
    obtain ⟨raw, -, hmade⟩ := hread.results.sound row hrow
    obtain ⟨fact, -, hrowFact⟩ := fromRaw_eq_ok.mp hmade
    exact callResultBindingFact_contained hrowFact

theorem interproceduralFacts_contained
    (h : ctx.interproceduralFacts before facts = .ok (after, rows)) :
    (∃ functionSummaries, after = { before with functionSummaries }) ∧
      SummariesContained after rows := by
  obtain ⟨hframe, summaryFacts, hread⟩ := interproceduralFacts_ok h
  exact ⟨hframe, summariesContained_of_read hread⟩

end Pass

end FactContext

end CppContextEngine.Ingestion
