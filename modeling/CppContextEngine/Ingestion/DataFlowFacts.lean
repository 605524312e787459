import CppContextEngine.Ingestion.CfgFacts

/-!
# Data-flow facts

`_FactBatchBuilder._data_flow_facts` and its row builders.
-/

namespace CppContextEngine.Ingestion

open CppContextEngine.Foundation CppContextEngine.Models

variable [NativeLibrary]

structure DataFlowRows where
  analyses : List DataFlowAnalysis := []
  locations : List MemoryLocation := []
  accesses : List DataAccess := []
  evidence : List DataFlowEvidence := []

def inconsistentGraphs {α : Type} : Except IngestError α :=
  protocolError "analyzer data-flow facts have inconsistent graph references"

def inconsistentAnalyses {α : Type} : Except IngestError α :=
  protocolError "analyzer data-flow facts have inconsistent analysis references"

/-- `except ValueError as error: raise AnalyzerProtocolError(message) from error` -/
def translateValue {α : Type} (message : String) (result : Except IngestError α) :
    Except IngestError α :=
  result.mapError fun
    | .protocol text => .protocol text
    | .value => .protocol message

/-- `str(value)` -/
def textOf : Json → String
  | .text value => value
  | value => NativeLibrary.str value

namespace FactContext

variable (ctx : FactContext) (tables : FactTables)

/-! ## Keys -/

def dataFlowAnalysisEntry (fact : Record) : Except IngestError (String × Owned) := do
  let key ← fact.string "key"
  let graphId ← tables.knownCfgGraph (← fact.string "graph_key")
  return (key, { id := rowId ⟨"data_flow_", by decide +kernel⟩ [graphId.val], owner := graphId })

def memoryLocationEntry (fact : Record) : Except IngestError (String × Owned) := do
  let key ← fact.string "key"
  let analysisId ← tables.knownDataFlowAnalysis (← fact.string "analysis_key")
  return (key,
    { id := rowId ⟨"memory_", by decide +kernel⟩ [analysisId.val, key]
      owner := analysisId })

/-- The accesses so far, and `data_access_identity_keys`. -/
abbrev DataAccessState := Table Owned × Table String

/-- Compact keys of accesses must not change the ids of rows. -/
def accessIdentityKey (fact : Record) (key blockKey : String) (sequence : Nat) :
    Except IngestError (Option String) := do
  if key = blockKey ++ ":access:" ++ toString sequence then
    let analysisKey ← fact.string "analysis_key"
    let kind ← fact.string "kind"
    let locationKey ← fact.string "location_key"
    return some (analysisKey ++ ":access:" ++ blockKey ++ ":" ++ toString sequence ++ ":" ++
      kind ++ ":" ++ locationKey)
  else return none

def dataAccessStep (state : DataAccessState) (fact : Record) :
    Except IngestError DataAccessState := do
  let key ← fact.string "key"
  let analysisId ← tables.knownDataFlowAnalysis (← fact.string "analysis_key")
  let blockKey ← fact.string "block_key"
  let sequence ← fact.nonNegativeInteger "sequence"
  let identityKey ← accessIdentityKey fact key blockKey sequence
  let access : Owned :=
    { id := rowId ⟨"access_", by decide +kernel⟩ [analysisId.val, identityKey.getD key]
      owner := analysisId }
  return (state.1.insert key access, identityKey.elim state.2 (state.2.insert key))

/-! ## Checks -/

/-- The graph of a location or an access is the one of its analysis. -/
def checkAnalysisGraph (fact : Record) : Except IngestError Unit := do
  let analysisKey ← fact.string "analysis_key"
  let graphId ← tables.knownCfgGraph (← fact.string "graph_key")
  if ownerOf tables.dataFlowAnalyses analysisKey ≠ some graphId then inconsistentGraphs else return

/-- The base of a location is in its analysis. -/
def checkBase (fact : Record) : Except IngestError Unit := do
  let analysisId ← tables.knownDataFlowAnalysis (← fact.string "analysis_key")
  let baseKey := fact.get "base_key"
  if ctx.truthy baseKey ∧ ownerOf tables.memoryLocations (textOf baseKey) ≠ some analysisId then
    inconsistentAnalyses
  else return

/-- The location of an access is in its analysis, its block and its element in its graph. -/
def checkAccess (fact : Record) : Except IngestError Unit := do
  let analysisId ← tables.knownDataFlowAnalysis (← fact.string "analysis_key")
  let locationKey ← fact.string "location_key"
  if ownerOf tables.memoryLocations locationKey ≠ some analysisId then inconsistentAnalyses
  else do
    let graphId ← tables.knownCfgGraph (← fact.string "graph_key")
    let blockKey ← fact.string "block_key"
    if ownerOf tables.cfgBlocks blockKey ≠ some graphId then inconsistentGraphs
    else do
      let elementKey := fact.get "cfg_element_key"
      if ctx.truthy elementKey ∧ ownerOf tables.cfgElements (textOf elementKey) ≠ some graphId then
        inconsistentGraphs
      else return

/-! ## Rows -/

/-- `_data_flow_analysis_fact` -/
def dataFlowAnalysisFact (fact : Record) : Except IngestError DataFlowAnalysis := do
  let reasons ← fact.textsOr "incomplete_reasons" .null
    "analyzer data-flow reasons must be strings"
  let limits ← fact.mapping "limits"
  let id ← tables.knownDataFlowAnalysis (← fact.string "key")
  let graphId ← tables.knownCfgGraph (← fact.string "graph_key")
  let complete ← fact.boolean "complete"
  let iterationCount ← fact.nonNegativeInteger "iteration_count"
  let maxIterations ← limits.positiveInteger "max_iterations"
  let maxAliasTargets ← limits.positiveInteger "max_alias_targets"
  let maxAccessPathDepth ← limits.positiveInteger "max_access_path_depth"
  let maxLocations ← limits.positiveInteger "max_locations"
  let kept := strippedTexts reasons
  if agrees : complete = kept.val.isEmpty then
    return {
      id, graphId, complete, iterationCount
      incompleteReasons := kept.val
      maxIterations := maxIterations.val
      maxAliasTargets := maxAliasTargets.val
      maxAccessPathDepth := maxAccessPathDepth.val
      maxLocations := maxLocations.val
      translationUnitId := ctx.unitId
      buildConfigurationId := ctx.configurationId
      buildVariant := ctx.buildVariant
      limitsPositive := ⟨maxIterations.property, maxAliasTargets.property,
        maxAccessPathDepth.property, maxLocations.property⟩
      reasonsStripped := kept.property
      agrees }
  else throw .value

/-- `_memory_location_fact` -/
def memoryLocationFact (fact : Record) : Except IngestError MemoryLocation := do
  let accessPath ← fact.textsOr "access_path" (.list []) "analyzer memory access path is invalid"
  let declarationKey ← fact.textOrNone "declaration_key"
    "analyzer memory declaration key is invalid"
  let baseKey ← fact.textOrNone "base_key" "analyzer memory base key is invalid"
  let analysisId ← tables.knownDataFlowAnalysis (← fact.string "analysis_key")
  let graphId ← tables.knownCfgGraph (← fact.string "graph_key")
  let id ← tables.knownMemoryLocation (← fact.string "key")
  let kind ← modelEnum (← fact.string "kind")
  let name ← fact.string "name"
  let typeName ← fact.optionalString "type_name"
  let declarationSymbolId ← knownIfGiven tables.knownId declarationKey
  let baseLocationId ← knownIfGiven tables.knownMemoryLocation baseKey
  let isVolatile ← fact.boolean "is_volatile"
  let isAtomic ← fact.boolean "is_atomic"
  let name ← modelText name
  if based : kind = .field ∨ kind = .dereference → baseLocationId ≠ none then
    return {
      id, analysisId, graphId, kind, name, typeName, declarationSymbolId, baseLocationId
      accessPath, isVolatile, isAtomic
      translationUnitId := ctx.unitId
      buildConfigurationId := ctx.configurationId
      buildVariant := ctx.buildVariant
      based }
  else throw .value

/-- `id.strip()` of an id that is not blank. -/
def stripId (given : Identifier) : Identifier :=
  ⟨Storage.strip given.val, not_blank_strip (Storage.strip_ne_empty given.property)⟩

/-- `dict.fromkeys(item.strip() for item in ids if item.strip())` -/
def strippedIds (ids : List Identifier) : { kept : List Identifier // kept.Nodup } :=
  ⟨firstPerKey id (ids.map stripId), nodup_firstPerKey_id _⟩

/-- `_data_access_fact` -/
def dataAccessFact (fact : Record) : Except IngestError DataAccess := do
  let pointeeKeys ← fact.textsOr "pointee_keys" (.list [])
    "analyzer points-to targets are invalid"
  let elementKey ← fact.textOrNone "cfg_element_key" "analyzer data access CFG element is invalid"
  let id ← tables.knownDataAccess (← fact.string "key")
  let analysisId ← tables.knownDataFlowAnalysis (← fact.string "analysis_key")
  let graphId ← tables.knownCfgGraph (← fact.string "graph_key")
  let blockId ← tables.knownCfgBlock (← fact.string "block_key")
  let cfgElementId ← knownIfGiven tables.knownCfgElement elementKey
  let locationId ← tables.knownMemoryLocation (← fact.string "location_key")
  let kind ← modelEnum (← fact.string "kind")
  let sequence ← fact.nonNegativeInteger "sequence"
  let span ← ctx.optionalSpan fact "span"
  let expression ← fact.optionalString "expression"
  let pointees ← pointeeKeys.mapM tables.knownId
  let pointsToComplete ← fact.boolean "points_to_complete"
  let kept := strippedIds pointees
  return {
    id, analysisId, graphId, blockId, cfgElementId, locationId, kind, sequence, span, expression
    pointeeSymbolIds := kept.val
    pointsToComplete
    translationUnitId := ctx.unitId
    buildConfigurationId := ctx.configurationId
    buildVariant := ctx.buildVariant
    distinctPointees := kept.property }

/-! ## Evidence -/

/-- The four keys of a piece of evidence. -/
structure EvidenceKeys where
  sourceAccess : Option String
  targetAccess : Option String
  sourceLocation : Option String
  targetLocation : Option String

def evidenceKeys (fact : Record) : Except IngestError EvidenceKeys := do
  let message := "analyzer data-flow evidence key is invalid"
  let sourceAccess ← fact.textOrNone "source_access_key" message
  let targetAccess ← fact.textOrNone "target_access_key" message
  let sourceLocation ← fact.textOrNone "source_location_key" message
  let targetLocation ← fact.textOrNone "target_location_key" message
  return { sourceAccess, targetAccess, sourceLocation, targetLocation }

/-- A key that is neither `None` nor empty. -/
def givenKey : Option String → Option String
  | some "" => none
  | key => key

/-- Two keys, if both are given and the other two are not. -/
def keyPair (source target other otherTarget : Option String) :
    Except IngestError (String × String) :=
  match givenKey source, givenKey target, givenKey other, givenKey otherTarget with
  | some source, some target, none, none => .ok (source, target)
  | _, _, _, _ => protocolError "analyzer data-flow evidence relation is invalid"

/-- Reaching definitions and overwrites connect accesses, aliases connect locations. -/
def connectsAccesses : DataFlowRelation → Bool
  | .reachingDefinition | .overwrites => true
  | .mustAlias | .mayAlias => false

/-- The pair of keys that the relation connects. -/
def evidencePair (relation : DataFlowRelation) (keys : EvidenceKeys) :
    Except IngestError (String × String) :=
  if connectsAccesses relation then
    keyPair keys.sourceAccess keys.targetAccess keys.sourceLocation keys.targetLocation
  else keyPair keys.sourceLocation keys.targetLocation keys.sourceAccess keys.targetAccess

/-- The table that the ends of a relation are in. -/
def evidenceTable (relation : DataFlowRelation) : Table Owned :=
  if connectsAccesses relation then tables.dataAccesses else tables.memoryLocations

/-- The key of the row: compact accesses stand for their identities. -/
def evidenceKey (relation : DataFlowRelation) (key analysisKey : String)
    (pair : String × String) : Except IngestError String :=
  if connectsAccesses relation then
    let source := (tables.dataAccessIdentityKeys[pair.1]?).getD pair.1
    let target := (tables.dataAccessIdentityKeys[pair.2]?).getD pair.2
    let named (source target : String) :=
      analysisKey ++ ":evidence:" ++ StrEnum.value relation ++ ":" ++ source ++ ":" ++ target
    if (source, target) = pair then .ok key
    else if key ≠ named pair.1 pair.2 then
      protocolError "analyzer compact evidence key is inconsistent"
    else .ok (named source target)
  else .ok key

/-- The ids of the two ends. -/
def evidenceEnds (relation : DataFlowRelation) (pair : String × String) :
    Except IngestError EvidencePair := do
  if connectsAccesses relation then
    return .accesses (← tables.knownDataAccess pair.1) (← tables.knownDataAccess pair.2)
  else return .locations (← tables.knownMemoryLocation pair.1) (← tables.knownMemoryLocation pair.2)

/-- `_data_flow_evidence_fact` -/
def dataFlowEvidenceFact (fact : Record) : Except IngestError DataFlowEvidence := do
  let keys ← evidenceKeys fact
  let key ← fact.string "key"
  let analysisKey ← fact.string "analysis_key"
  let analysisId ← tables.knownDataFlowAnalysis analysisKey
  let graphId ← tables.knownCfgGraph (← fact.string "graph_key")
  if ownerOf tables.dataFlowAnalyses analysisKey ≠ some graphId then inconsistentGraphs
  else do
    let relation ← modelEnum (← fact.string "relation")
    let pair ← evidencePair relation keys
    let ends := evidenceTable tables relation
    if ownerOf ends pair.1 ≠ some analysisId ∨ ownerOf ends pair.2 ≠ some analysisId then
      inconsistentAnalyses
    else do
      let key ← evidenceKey tables relation key analysisKey pair
      let certainty ← modelEnum (← fact.string "certainty")
      let reason ← fact.string "reason"
      let ends ← evidenceEnds tables relation pair
      let evidenceSpan ← ctx.optionalSpan fact "evidence_span"
      let reason ← modelText reason
      return {
        id := rowId ⟨"evidence_", by decide +kernel⟩ [analysisId.val, key]
        analysisId, graphId, relation, certainty, reason, evidenceSpan
        pair := ends
        translationUnitId := ctx.unitId
        buildConfigurationId := ctx.configurationId
        buildVariant := ctx.buildVariant }

/-! ## The pass -/

/-- The dictionaries that the pass fills. -/
def dataFlowTables (analysisFacts locationFacts accessFacts : List Record) :
    Except IngestError FactTables := do
  let dataFlowAnalyses ← fillTable analysisFacts (dataFlowAnalysisEntry tables)
  let tables := { tables with dataFlowAnalyses }
  let memoryLocations ← fillTable locationFacts (memoryLocationEntry tables)
  let tables := { tables with memoryLocations }
  let accesses ← accessFacts.foldlM (dataAccessStep tables) (∅, ∅)
  return { tables with
    dataAccesses := accesses.1
    dataAccessIdentityKeys := accesses.2 }

/-- The rows behind the checks. -/
def dataFlowRows (facts analysisFacts locationFacts accessFacts : List Record) :
    Except IngestError DataFlowRows := do
  let analyses ← analysisFacts.mapM (ctx.dataFlowAnalysisFact tables)
  let locations ← locationFacts.mapM (ctx.memoryLocationFact tables)
  let accesses ← accessFacts.mapM (ctx.dataAccessFact tables)
  let evidence ← tables.rowsOf facts "data_flow_evidence_v1" (ctx.dataFlowEvidenceFact tables)
  return {
    analyses := sortBy (fun row => row.id.val) analyses
    locations := sortBy (fun row => toLex (row.analysisId.val,
      toLex (StrEnum.value row.kind, toLex (row.name.val, row.id.val)))) locations
    accesses := sortBy (fun row => toLex (row.analysisId.val,
      toLex (row.blockId.val, toLex (row.sequence, row.id.val)))) accesses
    evidence := sortBy (fun row => toLex (row.analysisId.val,
      toLex (StrEnum.value row.relation, row.id.val))) evidence }

/-- `_data_flow_facts` -/
def dataFlowFacts (facts : List Record) : Except IngestError (FactTables × DataFlowRows) := do
  let analysisFacts ← tables.factList facts "data_flow_analysis_v1"
  let locationFacts ← tables.factList facts "memory_location_v1"
  let accessFacts ← tables.factList facts "data_access_v1"
  let tables ← dataFlowTables tables analysisFacts locationFacts accessFacts
  let _ ← (locationFacts ++ accessFacts).mapM (checkAnalysisGraph tables)
  let _ ← locationFacts.mapM (ctx.checkBase tables)
  let _ ← accessFacts.mapM (ctx.checkAccess tables)
  let rows ← translateValue "analyzer returned an invalid data-flow fact"
    (ctx.dataFlowRows tables facts analysisFacts locationFacts accessFacts)
  return (tables, rows)

end FactContext

end CppContextEngine.Ingestion
