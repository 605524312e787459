import CppContextEngine.Analysis.Interprocedural
import CppContextEngine.Ingestion.DataFlowFacts

/-!
# Interprocedural facts

`_FactBatchBuilder._interprocedural_facts` and its row builders.
-/

namespace CppContextEngine.Ingestion

open CppContextEngine.Analysis CppContextEngine.Foundation CppContextEngine.Models

variable [NativeLibrary]

structure SummaryRows where
  summaries : List FunctionSummary := []
  effects : List SummaryEffect := []
  origins : List SummaryReturnOrigin := []
  arguments : List CallArgumentBinding := []
  results : List CallResultBinding := []

def inconsistentSummaryGraphs {α : Type} : Except IngestError α :=
  protocolError "analyzer summary facts have inconsistent graph references"

def inconsistentSummaryAnalyses {α : Type} : Except IngestError α :=
  protocolError "analyzer summary facts have inconsistent analysis references"

/-- `tuple(dict.fromkeys(x for x in reasons if x))` -/
def normalizedReasons (reasons : List String) : { kept : List String // NormalizedReasons kept } :=
  ⟨firstPerKey id (reasons.filter (· ≠ "")), by
    constructor
    · exact nodup_firstPerKey_id _
    · simp [mem_firstPerKey_id]⟩

namespace FactContext

variable (ctx : FactContext) (tables : FactTables)

/-! ## Keys and checks -/

def functionSummaryEntry (fact : Record) : Except IngestError (String × SummaryEntry) := do
  let key ← fact.string "key"
  let analysisKey ← fact.string "analysis_key"
  let analysisId ← tables.knownDataFlowAnalysis analysisKey
  let graphKey ← fact.string "graph_key"
  let graphId ← tables.knownCfgGraph graphKey
  if ownerOf tables.dataFlowAnalyses analysisKey ≠ some graphId then inconsistentSummaryGraphs
  else do
    let functionId ← tables.knownId (← fact.string "function_key")
    if ownerOf tables.cfgGraphs graphKey ≠ some functionId then inconsistentSummaryGraphs
    else do
      let modes ← fact.stringList "parameter_modes"
      return (key,
        { id := rowId ⟨"summary_", by decide +kernel⟩
            [ctx.buildVariant, ctx.configurationId, ctx.unitId, graphId.val]
          analysisId
          parameterCount := modes.length })

/-- `_validate_summary_analysis` -/
def validateSummaryAnalysis (summaryKey : String) (locationKey accessKey : Option String) :
    Except IngestError Unit :=
  match tables.functionSummaries[summaryKey]? with
  | none => protocolError "analyzer fact references an unknown function summary"
  | some summary =>
      if (∃ key ∈ locationKey, ownerOf tables.memoryLocations key ≠ some summary.analysisId) ∨
          ∃ key ∈ accessKey, ownerOf tables.dataAccesses key ≠ some summary.analysisId then
        inconsistentSummaryAnalyses
      else .ok ()

/-- A parameter index below the number of the summary's modes. -/
def summaryParameter (fact : Record) (summaryKey message : String) :
    Except IngestError (Option Nat) := do
  let parameterIndex ← fact.optionalNonNegativeInteger "parameter_index"
  let summary ← known "analyzer fact references an unknown function summary"
    tables.functionSummaries summaryKey
  throwIf (∃ index ∈ parameterIndex, summary.parameterCount ≤ index) (IngestError.protocol message)
  return parameterIndex

/-- `known(key) if key else None`, as text -/
def optionalId (find : String → Except IngestError Identifier) :
    Option String → Except IngestError (Option String)
  | none => .ok none
  | some key => (fun found => some found.val) <$> find key

/-! ## Rows -/

/-- `_function_summary_fact` -/
def functionSummaryFact (fact : Record) : Except IngestError FunctionSummary := do
  let key ← fact.string "key"
  let modes ← fact.stringList "parameter_modes"
  let locationKeys ← fact.stringList "parameter_location_keys"
  let reasons ← fact.stringList "local_incomplete_reasons"
  let complete ← fact.boolean "local_complete"
  throwIf (modes.length ≠ locationKeys.length ∨ complete = !reasons.isEmpty)
    (IngestError.protocol "analyzer function summary shape is invalid")
  let analysisId ← tables.knownDataFlowAnalysis (← fact.string "analysis_key")
  if ∃ key ∈ locationKeys, ownerOf tables.memoryLocations key ≠ some analysisId then
    inconsistentSummaryAnalyses
  else do
    let id ← tables.knownFunctionSummary key
    let functionSymbolId ← tables.knownId (← fact.string "function_key")
    let graphId ← tables.knownCfgGraph (← fact.string "graph_key")
    let locationIds ← locationKeys.mapM tables.knownMemoryLocation
    let kept := normalizedReasons reasons
    let limits := InterproceduralLimits.standard
    if agrees : complete = kept.val.isEmpty then
      return {
        id := id.val
        functionSymbolId := functionSymbolId.val
        graphId := graphId.val
        analysisId := analysisId.val
        parameterModes := modes
        parameterLocationIds := locationIds.map Subtype.val
        localComplete := complete
        localIncompleteReasons := kept.val
        complete
        incompleteReasons := kept.val
        recursive := false
        iterationCount := 0
        maxSccIterations := limits.maxSccIterations
        maxSccSize := limits.maxSccSize
        maxSummaryEffects := limits.maxSummaryEffects
        translationUnitId := ctx.unitId
        buildConfigurationId := ctx.configurationId
        buildVariant := ctx.buildVariant
        identified := ⟨id.property, functionSymbolId.property, graphId.property⟩
        limitsPositive := limits.positive
        localReasonsNormalized := kept.property
        reasonsNormalized := kept.property
        localAgrees := agrees
        agrees }
    else throw .value

/-- The key of an effect: a compact access stands for its identity. -/
def effectKey (fact : Record) (summaryKey : String) (accessKey : Option String) :
    Except IngestError String := do
  let key ← fact.string "key"
  match accessKey.bind fun access => tables.dataAccessIdentityKeys[access]? with
  | none => return key
  | some identity =>
      if some identity = accessKey then return key
      else do
        let kind ← fact.string "kind"
        throwIf (key ≠ summaryKey ++ ":effect:" ++ kind ++ ":" ++ accessKey.getD "None")
          (IngestError.protocol "analyzer compact summary effect key is inconsistent")
        return summaryKey ++ ":effect:" ++ kind ++ ":" ++ identity

/-- `_summary_effect_fact` -/
def summaryEffectFact (fact : Record) : Except IngestError SummaryEffect := do
  let summaryKey ← fact.string "summary_key"
  let summaryId ← tables.knownFunctionSummary summaryKey
  let locationKey ← fact.optionalKey "location_key"
  let accessKey ← fact.optionalKey "source_access_key"
  validateSummaryAnalysis tables summaryKey locationKey accessKey
  let key ← effectKey tables fact summaryKey accessKey
  let parameterIndex ← summaryParameter tables fact summaryKey
    "analyzer summary effect has an invalid parameter index"
  let kind ← modelEnum (← fact.string "kind")
  let locationKind ← modelEnum (← fact.string "location_kind")
  let certainty ← modelEnum (← fact.string "certainty")
  let reason ← fact.string "reason"
  let accessPath ← fact.stringList "access_path"
  let locationId ← optionalId tables.knownMemoryLocation locationKey
  let sourceAccessId ← optionalId tables.knownDataAccess accessKey
  let reason ← modelText reason
  let id := rowId ⟨"summary_effect_", by decide +kernel⟩ [summaryId.val, key]
  return {
    id := id.val
    summaryId := summaryId.val
    kind, locationKind, certainty, parameterIndex, accessPath, locationId, sourceAccessId
    reason := reason.val
    translationUnitId := ctx.unitId
    buildConfigurationId := ctx.configurationId
    buildVariant := ctx.buildVariant
    identified := ⟨id.property, summaryId.property, reason.property⟩
    provenance := fun hremote => Bool.noConfusion hremote }

/-- `MemoryLocationKind(text) if text else None` -/
def optionalKind (text : String) : Except IngestError (Option MemoryLocationKind) :=
  if text = "" then .ok none else some <$> modelEnum text

/-- `_summary_return_origin_fact` -/
def summaryReturnOriginFact (fact : Record) : Except IngestError SummaryReturnOrigin := do
  let summaryKey ← fact.string "summary_key"
  let summaryId ← tables.knownFunctionSummary summaryKey
  let locationKey ← fact.optionalKey "location_key"
  validateSummaryAnalysis tables summaryKey locationKey none
  let callsiteKey ← fact.optionalKey "callsite_key"
  let kindText ← fact.optionalString "location_kind"
  let key ← fact.string "key"
  let parameterIndex ← summaryParameter tables fact summaryKey
    "analyzer summary origin has an invalid parameter index"
  let kind ← modelEnum (← fact.string "kind")
  let certainty ← modelEnum (← fact.string "certainty")
  let reason ← fact.string "reason"
  let locationKind ← optionalKind kindText
  let accessPath ← fact.stringList "access_path"
  let locationId ← optionalId tables.knownMemoryLocation locationKey
  let callsiteId ← optionalId tables.knownCallsite callsiteKey
  let reason ← modelText reason
  let id := rowId ⟨"summary_return_", by decide +kernel⟩ [summaryId.val, key]
  if callResult : kind = .callResult → Given callsiteId then
    return {
      id := id.val
      summaryId := summaryId.val
      kind, certainty, locationKind, parameterIndex, accessPath, locationId, callsiteId
      reason := reason.val
      translationUnitId := ctx.unitId
      buildConfigurationId := ctx.configurationId
      buildVariant := ctx.buildVariant
      identified := ⟨id.property, summaryId.property, reason.property⟩
      callResult
      provenance := fun hremote => Bool.noConfusion hremote }
  else throw .value

/-- `_call_argument_binding_fact` -/
def callArgumentBindingFact (fact : Record) : Except IngestError CallArgumentBinding := do
  let summaryKey ← fact.string "summary_key"
  let summaryId ← tables.knownFunctionSummary summaryKey
  let locationKey ← fact.optionalKey "location_key"
  validateSummaryAnalysis tables summaryKey locationKey none
  let complete ← fact.boolean "complete"
  let reason ← fact.optionalString "incomplete_reason"
  if agrees : complete = reason.isEmpty then
    let callsiteId ← tables.knownCallsite (← fact.string "callsite_key")
    let argumentIndex ← fact.nonNegativeInteger "argument_index"
    let parameterIndex ← summaryParameter tables fact summaryKey
      "analyzer call binding has an invalid parameter index"
    let locationId ← optionalId tables.knownMemoryLocation locationKey
    let locationKind ← modelEnum (← fact.string "location_kind")
    let accessPath ← fact.stringList "access_path"
    let writebackCandidate ← fact.boolean "writeback_candidate"
    let id := rowId ⟨"call_argument_", by decide +kernel⟩
      [summaryId.val, callsiteId.val, toString argumentIndex]
    return {
      id := id.val
      callerSummaryId := summaryId.val
      callsiteId := callsiteId.val
      argumentIndex, locationId, locationKind, parameterIndex, accessPath, writebackCandidate
      complete
      incompleteReason := reason
      translationUnitId := ctx.unitId
      buildConfigurationId := ctx.configurationId
      buildVariant := ctx.buildVariant
      identified := ⟨id.property, summaryId.property, callsiteId.property⟩
      agrees }
  else protocolError "analyzer call argument completeness is invalid"

/-- `_call_result_binding_fact` -/
def callResultBindingFact (fact : Record) : Except IngestError CallResultBinding := do
  let summaryKey ← fact.string "summary_key"
  let summaryId ← tables.knownFunctionSummary summaryKey
  let locationKey ← fact.string "location_key"
  let accessKey ← fact.string "definition_access_key"
  validateSummaryAnalysis tables summaryKey (some locationKey) (some accessKey)
  let callsiteId ← tables.knownCallsite (← fact.string "callsite_key")
  let locationId ← tables.knownMemoryLocation locationKey
  let definitionAccessId ← tables.knownDataAccess accessKey
  let id := rowId ⟨"call_result_", by decide +kernel⟩ [summaryId.val, callsiteId.val]
  return {
    id := id.val
    callerSummaryId := summaryId.val
    callsiteId := callsiteId.val
    locationId := locationId.val
    definitionAccessId := definitionAccessId.val
    translationUnitId := ctx.unitId
    buildConfigurationId := ctx.configurationId
    buildVariant := ctx.buildVariant
    identified := ⟨id.property, summaryId.property, callsiteId.property, locationId.property,
      definitionAccessId.property⟩ }

/-! ## The pass -/

/-- The rows behind the keys of the summaries. -/
def summaryRows (facts summaryFacts : List Record) : Except IngestError SummaryRows := do
  let summaries ← summaryFacts.mapM (ctx.functionSummaryFact tables)
  let effects ← tables.rowsOf facts "summary_effect_v1" (ctx.summaryEffectFact tables)
  let origins ← tables.rowsOf facts "summary_return_origin_v1"
    (ctx.summaryReturnOriginFact tables)
  let arguments ← tables.rowsOf facts "call_argument_binding_v1"
    (ctx.callArgumentBindingFact tables)
  let results ← tables.rowsOf facts "call_result_binding_v1" (ctx.callResultBindingFact tables)
  return {
    summaries := sortBy FunctionSummary.id summaries
    effects := sortBy SummaryEffect.id effects
    origins := sortBy SummaryReturnOrigin.id origins
    arguments := sortBy CallArgumentBinding.id arguments
    results := sortBy CallResultBinding.id results }

/-- `_interprocedural_facts` -/
def interproceduralFacts (facts : List Record) :
    Except IngestError (FactTables × SummaryRows) := do
  let summaryFacts ← tables.factList facts "function_summary_v1"
  let functionSummaries ← fillTable summaryFacts (ctx.functionSummaryEntry tables)
  let tables := { tables with functionSummaries }
  let rows ← translateValue "analyzer returned an invalid summary fact"
    (ctx.summaryRows tables facts summaryFacts)
  return (tables, rows)

end FactContext

end CppContextEngine.Ingestion
