import CppContextEngine.Foundation.BudgetedRun
import CppContextEngine.Server.ScopeResolution
import CppContextEngine.Storage.AnalysisTables
import CppContextEngine.Storage.SymbolLookups

/-!
# Analysis queries

The answers to `control_flow` and `data_flow`.  A request bounds how many
blocks, elements and edges, or locations, accesses and pieces of evidence, all
graphs of the answer show together.
-/

namespace CppContextEngine.Server

open CppContextEngine.Foundation CppContextEngine.Models CppContextEngine.Storage

/-! ## Requests -/

/-- `Identifier` of the contract: stripped, not empty and of at most `MAX_ID_CHARS` characters. -/
abbrev RequestId := { text : String // strip text = text ∧ text ≠ "" ∧ text.length ≤ 2048 }

structure CfgRequest where
  functionSymbolId : RequestId
  materializationId : Option RequestId := none
  builds : Option (List BuildName) := none
  maxGraphs : Nat := 5
  maxBlocks : Nat := 100
  maxElements : Nat := 500
  maxEdges : Nat := 500
  buildRange : ∀ names ∈ builds, names.length ≤ maxBuildVariants
  graphRange : 1 ≤ maxGraphs ∧ maxGraphs ≤ 20
  blockRange : 1 ≤ maxBlocks ∧ maxBlocks ≤ 500
  elementRange : 1 ≤ maxElements ∧ maxElements ≤ 2000
  edgeRange : 1 ≤ maxEdges ∧ maxEdges ≤ 2000

structure FlowRequest where
  functionSymbolId : RequestId
  materializationId : Option RequestId := none
  builds : Option (List BuildName) := none
  maxAnalyses : Nat := 5
  maxLocations : Nat := 200
  maxAccesses : Nat := 500
  maxEvidence : Nat := 500
  buildRange : ∀ names ∈ builds, names.length ≤ maxBuildVariants
  analysisRange : 1 ≤ maxAnalyses ∧ maxAnalyses ≤ 20
  locationRange : 1 ≤ maxLocations ∧ maxLocations ≤ 1000
  accessRange : 1 ≤ maxAccesses ∧ maxAccesses ≤ 2000
  evidenceRange : 1 ≤ maxEvidence ∧ maxEvidence ≤ 2000

/-! ## Answers -/

structure ScopeResult where
  variants : List String
  kind : String
  label : String
  deriving DecidableEq

structure CoverageEntry where
  buildVariant : String
  translationUnitId : String
  analysisBackend : String
  profile : IndexProfile
  navigation : Bool
  controlFlow : Bool
  dataFlow : Bool
  summaries : Bool
  bindings : Bool
  closureComplete : Bool
  materializationId : Option String
  limitReason : String
  distance : Nat
  deriving DecidableEq

structure SourceLocation where
  path : String
  startLine : Nat
  endLine : Nat
  startColumn : Nat
  endColumn : Nat
  deriving DecidableEq

structure Provenance where
  buildVariant : String
  buildConfigurationId : String
  translationUnitId : String
  deriving DecidableEq

structure CfgBlockResult where
  blockId : Identifier
  index : Nat
  role : CfgBlockRole
  reachable : Bool
  terminatorKind : String
  terminatorText : String
  terminatorLocation : Option SourceLocation
  deriving DecidableEq

structure CfgElementResult where
  elementId : Identifier
  blockId : Identifier
  index : Nat
  kind : Identifier
  statementClass : String
  text : String
  location : Option SourceLocation
  deriving DecidableEq

structure CfgEdgeResult where
  edgeId : Identifier
  sourceBlockId : Identifier
  targetBlockId : Identifier
  kind : CfgEdgeKind
  successorIndex : Nat
  feasible : Bool
  deriving DecidableEq

structure CfgGraphResult where
  graphId : Identifier
  functionSymbolId : Identifier
  entryBlockId : Identifier
  normalExitBlockId : Identifier
  exceptionalExitBlockId : Option Identifier
  complete : Bool
  provenance : Provenance
  blocks : List CfgBlockResult
  elements : List CfgElementResult
  edges : List CfgEdgeResult
  deriving DecidableEq

structure ControlFlowResult where
  functionSymbolId : String
  scope : ScopeResult
  graphs : List CfgGraphResult
  truncated : Bool
  available : Bool := true
  unavailableReason : Option String := none
  coverage : List CoverageEntry := []
  requiredAction : Option String := none
  deriving DecidableEq

structure MemoryLocationResult where
  locationId : Identifier
  kind : MemoryLocationKind
  name : Identifier
  typeName : String
  declarationSymbolId : Option Identifier
  baseLocationId : Option Identifier
  accessPath : List String
  isVolatile : Bool
  isAtomic : Bool
  deriving DecidableEq

structure DataAccessResult where
  accessId : Identifier
  blockId : Identifier
  cfgElementId : Option Identifier
  locationId : Identifier
  kind : DataAccessKind
  sequence : Nat
  expression : String
  location : Option SourceLocation
  pointeeSymbolIds : List Identifier
  pointsToComplete : Bool
  deriving DecidableEq

structure FlowEvidenceResult where
  evidenceId : Identifier
  relation : DataFlowRelation
  certainty : DataFlowCertainty
  reason : Identifier
  pair : EvidencePair
  location : Option SourceLocation
  deriving DecidableEq

structure SummaryEffectResult where
  effectId : String
  kind : SummaryEffectKind
  locationKind : MemoryLocationKind
  certainty : DataFlowCertainty
  reason : String
  parameterIndex : Option Nat
  accessPath : List String
  isLocal : Bool
  viaCallsiteId : Option String
  targetSymbolId : Option String
  deriving DecidableEq

structure SummaryReturnOriginResult where
  originId : String
  kind : SummaryReturnOriginKind
  certainty : DataFlowCertainty
  reason : String
  locationKind : Option MemoryLocationKind
  parameterIndex : Option Nat
  accessPath : List String
  locationId : Option String
  callsiteId : Option String
  isLocal : Bool
  viaCallsiteId : Option String
  targetSymbolId : Option String
  deriving DecidableEq

structure InterproceduralFlowResult where
  flowId : String
  kind : InterproceduralFlowKind
  callerSummaryId : String
  calleeSummaryId : String
  callsiteId : String
  targetSymbolId : String
  targetCertainty : CallTargetCertainty
  certainty : DataFlowCertainty
  reason : String
  argumentIndex : Option Nat
  deriving DecidableEq

structure DataFlowAnalysisResult where
  analysisId : Identifier
  graphId : Identifier
  complete : Bool
  incompleteReasons : List String
  iterationCount : Nat
  provenance : Provenance
  locations : List MemoryLocationResult
  accesses : List DataAccessResult
  evidence : List FlowEvidenceResult
  summaryComplete : Option Bool
  summaryIncompleteReasons : List String
  effects : List SummaryEffectResult
  returnOrigins : List SummaryReturnOriginResult
  interprocedural : List InterproceduralFlowResult
  deriving DecidableEq

structure DataFlowResult where
  functionSymbolId : String
  scope : ScopeResult
  analyses : List DataFlowAnalysisResult
  truncated : Bool
  available : Bool := true
  unavailableReason : Option String := none
  coverage : List CoverageEntry := []
  requiredAction : Option String := none
  deriving DecidableEq

/-! ## The service -/

/-- What a query raises. -/
inductive QueryError where
  | scope (error : ScopeError)
  | store (error : StoreError)
  | page (error : PageError)
  | value (message : String)
  deriving DecidableEq, Repr

structure AnalysisQueryService where
  store : AnalysisStore
  projectRoot : String
  allowedScope : BuildScope
  /-- The directories that a build's generated roots may be. -/
  boundedDirectory : String → Bool
  /-- `display_path` of the source reader; a path outside the project has none. -/
  displayPath : String → Option String

namespace AnalysisQueryService

variable (service : AnalysisQueryService)

def scopes : ScopeService where
  store := service.store.toBuildStore
  projectRoot := service.projectRoot
  allowedScope := service.allowedScope
  boundedDirectory := service.boundedDirectory

/-- `_require_symbol` -/
def requireSymbol (symbolId : String) (scope : BuildScope) : Except QueryError String := do
  match ← (service.store.getSymbol symbolId (some service.projectRoot) (some scope)).mapError
      QueryError.store with
  | none => throw (.value "requested symbol ID is not present in the selected build scope")
  | some symbol => return symbol.text.id.val

def coverageEntry (state : AnalysisCoverageState) : CoverageEntry where
  buildVariant := state.buildVariant
  translationUnitId := state.translationUnitId
  analysisBackend := state.analysisBackend
  profile := state.indexProfile
  navigation := state.navigationFactsComplete
  controlFlow := state.cfgFactsComplete
  dataFlow := state.dataFlowFactsComplete
  summaries := state.summaryFactsComplete
  bindings := state.bindingFactsComplete
  closureComplete := state.closureComplete
  materializationId := state.materializationId
  limitReason := state.limitReason
  distance := state.distance

/-- `_coverage` -/
def coverageEntries (symbolId : String) (scope : BuildScope) (materializationId : Option String) :
    Except QueryError (List CoverageEntry) := do
  let states ← (service.store.analysisCoverage symbolId (some service.projectRoot) (some scope)
    materializationId).mapError .store
  return states.map coverageEntry

/-- `_scope_result` -/
def scopeResult (scope : BuildScope) : ScopeResult where
  variants := scope.variants
  kind := if 1 < scope.variants.length then "union" else "single"
  label := (if 1 < scope.variants.length then "union" else "build") ++ ":" ++
    ",".intercalate scope.variants

/-- `_required_location` -/
def requiredLocation (span : SourceSpan) : Except QueryError SourceLocation :=
  match service.displayPath span.path with
  | none => .error (.value "indexed source location is outside the configured project")
  | some path =>
      .ok
        { path
          startLine := span.startLine
          endLine := span.endLine
          startColumn := span.startColumn
          endColumn := span.endColumn }

/-- `_location` -/
def location (span : Option SourceSpan) : Except QueryError (Option SourceLocation) :=
  span.mapM service.requiredLocation

/-- `BuildScope.single(graph.build_variant)` -/
def graphScope (graph : CfgGraph) : Except QueryError BuildScope :=
  (scopeOfNames [graph.buildVariant]).mapError (QueryError.scope ∘ .names)

/-- What both queries find out first: the scope, the symbol and what is known of it. -/
structure Target where
  scope : BuildScope
  functionSymbolId : String
  coverage : List CoverageEntry

def Target.translationUnitIds (target : Target) : List String :=
  target.coverage.map CoverageEntry.translationUnitId

def target (functionSymbolId : RequestId) (materializationId : Option RequestId)
    (builds : Option (List BuildName)) : Except QueryError Target := do
  let scope ← (service.scopes.resolveScope (builds.map (·.map Subtype.val))).mapError .scope
  let functionSymbolId ← service.requireSymbol functionSymbolId.val scope
  let coverage ← service.coverageEntries functionSymbolId scope
    (materializationId.map Subtype.val)
  return { scope, functionSymbolId, coverage }

/-! ### `control_flow` -/

def blockResult (block : CfgBlock) : Except QueryError CfgBlockResult := do
  let terminatorLocation ← service.location
    (block.terminatorExpansionSpan.or block.terminatorSpellingSpan)
  return {
    blockId := block.id
    index := block.index
    role := block.role
    reachable := block.reachable
    terminatorKind := block.terminatorKind
    terminatorText := block.terminatorText
    terminatorLocation }

def elementResult (element : CfgElement) : Except QueryError CfgElementResult := do
  let location ← service.location (element.expansionSpan.or element.spellingSpan)
  return {
    elementId := element.id
    blockId := element.blockId
    index := element.index
    kind := element.kind
    statementClass := element.statementClass
    text := element.text
    location }

def edgeResult (edge : CfgEdge) : CfgEdgeResult where
  edgeId := edge.id
  sourceBlockId := edge.sourceBlockId
  targetBlockId := edge.targetBlockId
  kind := edge.kind
  successorIndex := edge.successorIndex
  feasible := edge.feasible

def graphResult (graph : CfgGraph) (complete : Bool) (blocks : List CfgBlock)
    (elements : List CfgElement) (edges : List CfgEdge) : Except QueryError CfgGraphResult := do
  let blocks ← blocks.mapM service.blockResult
  let elements ← elements.mapM service.elementResult
  return {
    graphId := graph.id
    functionSymbolId := graph.functionSymbolId
    entryBlockId := graph.entryBlockId
    normalExitBlockId := graph.normalExitBlockId
    exceptionalExitBlockId := graph.exceptionalExitBlockId
    complete
    provenance :=
      { buildVariant := graph.buildVariant
        buildConfigurationId := graph.buildConfigurationId
        translationUnitId := graph.translationUnitId }
    blocks
    elements
    edges := edges.map edgeResult }

/-- `remaining_blocks`, `remaining_elements` and `remaining_edges` -/
structure CfgBudget where
  blocks : Nat
  elements : Nat
  edges : Nat

def CfgBudget.spent (left : CfgBudget) : Bool :=
  min (min left.blocks left.elements) left.edges = 0

/-- One turn of the loop over graphs. -/
def serveGraph (graph : CfgGraph) (left : CfgBudget) :
    Except QueryError (Option (Served CfgGraphResult CfgBudget)) := do
  let root := some service.projectRoot
  let scope ← graphScope graph
  let blocks ← (service.store.cfgBlockPage root (some scope) (max 1 left.blocks)
    graph.id.val).mapError .page
  let elements ← (service.store.cfgElementPage root (some scope) (max 1 left.elements)
    graph.id.val).mapError .page
  let edges ← (service.store.cfgEdgePage root (some scope) (max 1 left.edges)
    graph.id.val).mapError .page
  let selectedBlocks := blocks.items.take left.blocks
  let selectedElements := elements.items.take left.elements
  let selectedEdges := edges.items.take left.edges
  let output ← service.graphResult graph
    (!blocks.truncated && !elements.truncated && !edges.truncated) selectedBlocks
    selectedElements selectedEdges
  return some {
    output
    left :=
      { blocks := left.blocks - selectedBlocks.length
        elements := left.elements - selectedElements.length
        edges := left.edges - selectedEdges.length }
    cut := blocks.truncated || elements.truncated || edges.truncated }

/-- `control_flow` -/
def controlFlow (request : CfgRequest) : Except QueryError ControlFlowResult := do
  let target ← service.target request.functionSymbolId request.materializationId request.builds
  if target.coverage.isEmpty || !target.coverage.all CoverageEntry.controlFlow then
    return {
      functionSymbolId := target.functionSymbolId
      scope := scopeResult target.scope
      graphs := []
      truncated := false
      available := false
      unavailableReason := "control-flow facts are not covered by the selected index profile"
      coverage := target.coverage
      requiredAction := "materialize_deep_analysis" }
  let graphs ← (service.store.cfgGraphPage (some service.projectRoot) (some target.scope)
    request.maxGraphs target.functionSymbolId target.translationUnitIds).mapError .page
  let (rendered, truncated) ← budgetedRun service.serveGraph CfgBudget.spent graphs.items.length
    graphs.items ⟨request.maxBlocks, request.maxElements, request.maxEdges⟩ [] graphs.truncated
  return {
    functionSymbolId := target.functionSymbolId
    scope := scopeResult target.scope
    graphs := rendered
    truncated
    coverage := target.coverage }

/-! ### `data_flow` -/

def locationResult (location : MemoryLocation) : MemoryLocationResult where
  locationId := location.id
  kind := location.kind
  name := location.name
  typeName := location.typeName
  declarationSymbolId := location.declarationSymbolId
  baseLocationId := location.baseLocationId
  accessPath := location.accessPath
  isVolatile := location.isVolatile
  isAtomic := location.isAtomic

def accessResult (access : DataAccess) : Except QueryError DataAccessResult := do
  let location ← service.location access.span
  return {
    accessId := access.id
    blockId := access.blockId
    cfgElementId := access.cfgElementId
    locationId := access.locationId
    kind := access.kind
    sequence := access.sequence
    expression := access.expression
    location
    pointeeSymbolIds := access.pointeeSymbolIds
    pointsToComplete := access.pointsToComplete }

def evidenceResult (evidence : DataFlowEvidence) : Except QueryError FlowEvidenceResult := do
  let location ← service.location evidence.evidenceSpan
  return {
    evidenceId := evidence.id
    relation := evidence.relation
    certainty := evidence.certainty
    reason := evidence.reason
    pair := evidence.pair
    location }

def effectResult (effect : SummaryEffect) : SummaryEffectResult where
  effectId := effect.id
  kind := effect.kind
  locationKind := effect.locationKind
  certainty := effect.certainty
  reason := effect.reason
  parameterIndex := effect.parameterIndex
  accessPath := effect.accessPath
  isLocal := effect.isLocal
  viaCallsiteId := effect.viaCallsiteId
  targetSymbolId := effect.targetSymbolId

def originResult (origin : SummaryReturnOrigin) : SummaryReturnOriginResult where
  originId := origin.id
  kind := origin.kind
  certainty := origin.certainty
  reason := origin.reason
  locationKind := origin.locationKind
  parameterIndex := origin.parameterIndex
  accessPath := origin.accessPath
  locationId := origin.locationId
  callsiteId := origin.callsiteId
  isLocal := origin.isLocal
  viaCallsiteId := origin.viaCallsiteId
  targetSymbolId := origin.targetSymbolId

def flowResult (flow : InterproceduralFlow) : InterproceduralFlowResult where
  flowId := flow.id
  kind := flow.kind
  callerSummaryId := flow.callerSummaryId
  calleeSummaryId := flow.calleeSummaryId
  callsiteId := flow.callsiteId
  targetSymbolId := flow.targetSymbolId
  targetCertainty := flow.targetCertainty
  certainty := flow.certainty
  reason := flow.reason
  argumentIndex := flow.argumentIndex

/-- The rows that an answer shows of one analysis. -/
structure AnalysisSections where
  locations : List MemoryLocation
  accesses : List DataAccess
  evidence : List DataFlowEvidence
  effects : List SummaryEffect
  returnOrigins : List SummaryReturnOrigin
  interprocedural : List InterproceduralFlow

/-- The coverage of the graph's unit. -/
def unitEntry (coverage : List CoverageEntry) (graph : CfgGraph) : Option CoverageEntry :=
  coverage.find? fun entry => entry.translationUnitId = graph.translationUnitId

def analysisResult (coverage : List CoverageEntry) (graph : CfgGraph)
    (analysis : DataFlowAnalysis) (summary : Option FunctionSummary)
    (sections : AnalysisSections) : Except QueryError DataFlowAnalysisResult := do
  let accesses ← sections.accesses.mapM service.accessResult
  let evidence ← sections.evidence.mapM service.evidenceResult
  return {
    analysisId := analysis.id
    graphId := analysis.graphId
    complete := analysis.complete
    incompleteReasons := analysis.incompleteReasons
    iterationCount := analysis.iterationCount
    provenance :=
      { buildVariant := analysis.buildVariant
        buildConfigurationId := analysis.buildConfigurationId
        translationUnitId := analysis.translationUnitId }
    locations := sections.locations.map locationResult
    accesses
    evidence
    summaryComplete := summary.map fun summary =>
      summary.complete && (unitEntry coverage graph).any CoverageEntry.summaries
    summaryIncompleteReasons := summary.elim [] fun summary =>
      summary.incompleteReasons ++
        if (unitEntry coverage graph).any CoverageEntry.closureComplete then []
        else ["partial_materialization_closure"]
    effects := sections.effects.map effectResult
    returnOrigins := sections.returnOrigins.map originResult
    interprocedural := sections.interprocedural.map flowResult }

/-- What is shown of one section of a summary. -/
structure SectionPage (α : Type) where
  items : List α := []
  truncated : Bool := false
  skipped : Bool := false

/-- A section is asked for while there is a summary and evidence is left to show. -/
def sectionPage {α : Type} (page : String → Int → Except PageError (BoundedCfgResult α))
    (summary : Option FunctionSummary) (remaining : Nat) :
    Except QueryError (SectionPage α) :=
  match summary with
  | none => .ok {}
  | some summary =>
      if 0 < remaining then do
        let found ← (page summary.id (max 1 remaining)).mapError .page
        return { items := found.items, truncated := found.truncated }
      else .ok { skipped := true }

/-- `summaries_by_graph.get(graph.id)` -/
def graphSummary (summaries : List FunctionSummary) (graph : CfgGraph) : Option FunctionSummary :=
  lastBy FunctionSummary.graphId graph.id.val summaries

/-- `remaining_locations`, `remaining_accesses` and `remaining_evidence` -/
structure FlowBudget where
  locations : Nat
  accesses : Nat
  evidence : Nat

def FlowBudget.spent (left : FlowBudget) : Bool :=
  min (min left.locations left.accesses) left.evidence = 0

section DataFlow

variable [Zlib] [PayloadLibrary]

/-- What a turn shows of a graph's analysis. -/
def analysisTurn (target : Target) (graph : CfgGraph) (scope : BuildScope)
    (analysis : DataFlowAnalysis) (summary : Option FunctionSummary) (left : FlowBudget) :
    Except QueryError (Served DataFlowAnalysisResult FlowBudget) := do
  let root := some service.projectRoot
  let locations ← (service.store.memoryLocationPage root (some scope) (max 1 left.locations)
    analysis.id.val).mapError .page
  let accesses ← (service.store.dataAccessPage root (some scope) (max 1 left.accesses)
    analysis.id.val).mapError .page
  let evidence ← (service.store.dataFlowEvidencePage root (some scope) (max 1 left.evidence)
    analysis.id.val).mapError .page
  let selectedLocations := locations.items.take left.locations
  let selectedAccesses := accesses.items.take left.accesses
  let selectedEvidence := evidence.items.take left.evidence
  let remaining := left.evidence - selectedEvidence.length
  let effects ← sectionPage (service.store.summaryEffects · root (some scope)) summary remaining
  let remaining := remaining - effects.items.length
  let origins ← sectionPage (service.store.summaryReturnOrigins · root (some scope)) summary
    remaining
  let remaining := remaining - origins.items.length
  let flows ← sectionPage (fun id limit => service.store.interproceduralFlowPage root
    (some scope) limit id target.translationUnitIds) summary remaining
  let output ← service.analysisResult target.coverage graph analysis summary
    { locations := selectedLocations
      accesses := selectedAccesses
      evidence := selectedEvidence
      effects := effects.items
      returnOrigins := origins.items
      interprocedural := flows.items }
  return {
    output
    left :=
      { locations := left.locations - selectedLocations.length
        accesses := left.accesses - selectedAccesses.length
        evidence := remaining - flows.items.length }
    cut := locations.truncated || accesses.truncated || evidence.truncated ||
      effects.truncated || origins.truncated || flows.truncated
    skipped := effects.skipped || origins.skipped || flows.skipped }

/-- One turn of the loop over graphs; a graph without an analysis is passed over. -/
def serveAnalysis (target : Target) (summaries : List FunctionSummary) (graph : CfgGraph)
    (left : FlowBudget) :
    Except QueryError (Option (Served DataFlowAnalysisResult FlowBudget)) := do
  let scope ← graphScope graph
  let analyses ← (service.store.dataFlowAnalysisPage (some service.projectRoot) (some scope) 1
    graph.id.val).mapError .page
  match analyses.items with
  | [] => return none
  | analysis :: _ =>
      let turn ← service.analysisTurn target graph scope analysis (graphSummary summaries graph)
        left
      return some { turn with cut := analyses.truncated || turn.cut }

/-- `data_flow` -/
def dataFlow (request : FlowRequest) : Except QueryError DataFlowResult := do
  let target ← service.target request.functionSymbolId request.materializationId request.builds
  if target.coverage.isEmpty || !target.coverage.all CoverageEntry.dataFlow then
    return {
      functionSymbolId := target.functionSymbolId
      scope := scopeResult target.scope
      analyses := []
      truncated := false
      available := false
      unavailableReason := "data-flow facts are not covered by the selected index profile"
      coverage := target.coverage
      requiredAction := "materialize_deep_analysis" }
  let root := some service.projectRoot
  let graphs ← (service.store.cfgGraphPage root (some target.scope) request.maxAnalyses
    target.functionSymbolId target.translationUnitIds).mapError .page
  let summaries ← (service.store.functionSummaryPage root (some target.scope)
    request.maxAnalyses target.functionSymbolId target.translationUnitIds).mapError .page
  let (rendered, truncated) ← budgetedRun (service.serveAnalysis target summaries.items)
    FlowBudget.spent graphs.items.length graphs.items
    ⟨request.maxLocations, request.maxAccesses, request.maxEvidence⟩ []
    (graphs.truncated || summaries.truncated)
  return {
    functionSymbolId := target.functionSymbolId
    scope := scopeResult target.scope
    analyses := rendered
    truncated
    coverage := target.coverage }

end DataFlow

end AnalysisQueryService

end CppContextEngine.Server
