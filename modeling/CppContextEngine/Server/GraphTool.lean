import CppContextEngine.Storage.GraphTables

/-!
# The graph tool

`neighbors`, `callers` and `callees` answer from two sources: the edges of the
index, found by a walk, and the call evidence of the origin, which replaces
the edges it knows better.  Each source has its own limit.
-/

namespace CppContextEngine.Server

open CppContextEngine.Foundation CppContextEngine.Models CppContextEngine.Storage
open CppContextEngine.Storage.GraphStore

inductive ToolFailure where
  /-- `PublicToolFailure` -/
  | visible (text : String)
  | internal (error : StoreError)
  deriving DecidableEq, Repr

def symbolAbsent : ToolFailure :=
  .visible "The requested symbol ID is not present in the configured index."

/-- What `_call_tool` says of a failure. -/
def ToolFailure.message : ToolFailure → String
  | .visible text => text
  | .internal _ => "Graph navigation failed for the configured project index."

def internal {α : Type} : Except StoreError α → Except ToolFailure α
  | .error error => .error (.internal error)
  | .ok value => .ok value

/-- The arguments of the tool within the bounds of its contract. -/
structure GraphRequest where
  symbolId : String
  direction : GraphDirection
  relations : Option (List GraphRelation)
  depth : Nat
  maxResults : Nat
  perNodeFanout : Nat
  depthRange : 1 ≤ depth ∧ depth ≤ 3
  resultRange : 1 ≤ maxResults ∧ maxResults ≤ 100
  fanoutRange : 1 ≤ perNodeFanout ∧ perNodeFanout ≤ 25

/-- `frozenset(relations) if relations else None` -/
def GraphRequest.filter (request : GraphRequest) : List GraphRelation :=
  request.relations.getD []

/-! ## `AnalysisQueryService.calls` -/

structure CallEvidenceResult where
  targetEvidenceId : String
  callsiteId : String
  callerSymbolId : Identifier
  targetSymbolId : Identifier
  dispatchKind : CallDispatchKind
  certainty : CallTargetCertainty
  confidence : Rat
  confidenceReason : String
  derivation : String
  targetSetComplete : Bool
  unresolvedReason : String
  location : SourceSpan
  translationUnitId : String
  buildConfigurationId : String
  buildVariant : String
  deriving DecidableEq

def callEvidenceResult (row : CallEvidence) : CallEvidenceResult where
  targetEvidenceId := row.target.id
  callsiteId := row.site.id
  callerSymbolId := row.site.ownerSymbolId
  targetSymbolId := row.target.targetSymbolId
  dispatchKind := row.site.dispatchKind
  certainty := row.target.certainty
  confidence := row.target.confidence
  confidenceReason := row.target.confidenceReason
  derivation := row.target.derivation
  targetSetComplete := row.site.targetSetComplete
  unresolvedReason := row.site.unresolvedReason
  location := row.site.expansionSpan
  translationUnitId := row.target.translationUnitId
  buildConfigurationId := row.target.buildConfigurationId
  buildVariant := row.target.buildVariant

/-- `call.caller_symbol_id, call.target_symbol_id, call.provenance.build_variant` -/
def CallEvidenceResult.pair (call : CallEvidenceResult) : Identifier × Identifier × String :=
  (call.callerSymbolId, call.targetSymbolId, call.buildVariant)

/-- Variant IDs are public handles; the fact tables know canonical identifiers. -/
def requireSymbol (store : GraphStore) (root : Option String) (scope : BuildScope)
    (symbolId : String) : Except StoreError String := do
  match ← store.getSymbol symbolId root scope.variants with
  | none => .error .valueError
  | some symbol => .ok symbol.text.id.val

/-- `calls`, in a scope that is already resolved. -/
def calls (store : GraphStore) (root : Option String) (scope : BuildScope) (symbolId : String)
    (direction : GraphDirection) (maxResults : Nat) :
    Except StoreError (BoundedResult CallEvidenceResult) := do
  if direction = .both then .error .valueError
  else
    let symbolId ← requireSymbol store root scope symbolId
    let evidence ← store.callEvidence symbolId (direction = .incoming) root scope.variants
      maxResults
    .ok { items := evidence.items.map callEvidenceResult, truncated := evidence.truncated }

/-! ## Results -/

/-- An edge of the answer; a reference to a symbol is the symbol itself. -/
structure GraphEdgeResult where
  edgeId : String
  buildVariant : String
  source : CodeSymbol
  target : CodeSymbol
  relation : GraphRelation
  translationUnitId : String
  buildConfigurationId : String
  callsiteId : Option String
  certainty : Option CallTargetCertainty
  confidence : Option Rat
  confidenceReason : Option String
  derivation : Option String
  targetSetComplete : Option Bool
  deriving DecidableEq

structure GraphResult where
  symbol : CodeSymbol
  direction : GraphDirection
  depth : Nat
  edges : List GraphEdgeResult
  truncated : Bool
  scopeKind : String
  scopeLabel : String
  scopeVariants : List String
  deriving DecidableEq

def graphResult (request : GraphRequest) (scope : BuildScope) (origin : CodeSymbol)
    (edges : List GraphEdgeResult) (truncated : Bool) : GraphResult where
  symbol := origin
  direction := request.direction
  depth := request.depth
  edges := edges
  truncated := truncated
  scopeKind := if 1 < scope.variants.length then "union" else "single"
  scopeLabel :=
    if 1 < scope.variants.length then "union:" ++ ",".intercalate scope.variants
    else "build:" ++ scope.variants.head scope.nonempty
  scopeVariants := scope.variants

def edgeResult (edge : IndexedEdge) (detail : Option CallEvidenceResult)
    (source target : CodeSymbol) : GraphEdgeResult where
  edgeId := edge.id
  buildVariant := edge.buildVariant
  source := source
  target := target
  relation := edge.relation
  translationUnitId := edge.translationUnitId
  buildConfigurationId := edge.buildConfigurationId
  callsiteId := detail.map CallEvidenceResult.callsiteId
  certainty := detail.map CallEvidenceResult.certainty
  confidence := detail.map CallEvidenceResult.confidence
  confidenceReason := detail.map CallEvidenceResult.confidenceReason
  derivation := detail.map CallEvidenceResult.derivation
  targetSetComplete := detail.map CallEvidenceResult.targetSetComplete

/-- An edge with the call known of it; it is left out when an end is not in its build. -/
def renderEdge (store : GraphStore) (root : Option String) (edge : IndexedEdge)
    (detail : Option CallEvidenceResult) : Except StoreError (Option GraphEdgeResult) := do
  let source ← store.getSymbol edge.sourceId.val root [edge.buildVariant]
  let target ← store.getSymbol edge.targetId.val root [edge.buildVariant]
  match source, target with
  | some source, some target => .ok (some (edgeResult edge detail source target))
  | _, _ => .ok none

/-- The edge that stands for a call. -/
def CallEvidenceResult.edge (call : CallEvidenceResult) : IndexedEdge where
  sourceId := call.callerSymbolId
  targetId := call.targetSymbolId
  relation := .calls
  translationUnitId := call.translationUnitId
  id := call.targetEvidenceId
  buildConfigurationId := call.buildConfigurationId
  buildVariant := call.buildVariant

/-- What an edge of the index and the evidence of a call have in common. -/
def IndexedEdge.pair (edge : IndexedEdge) : Identifier × Identifier × String :=
  (edge.sourceId, edge.targetId, edge.buildVariant)

/-! ## Call evidence -/

/-- `call_details`, `details_by_id` and `evidence_edges` -/
structure CallDetails where
  byPair : Identifier × Identifier × String → Option CallEvidenceResult
  byId : String → Option CallEvidenceResult
  edges : List IndexedEdge
  truncated : Bool

def CallDetails.none : CallDetails where
  byPair := fun _ => .none
  byId := fun _ => .none
  edges := []
  truncated := false

/-- The first call of a pair stays unless a certain one follows. -/
def CallDetails.add (details : CallDetails) (call : CallEvidenceResult) : CallDetails where
  byPair :=
    if details.byPair call.pair = .none ∨ call.certainty = .certain then
      Function.update details.byPair call.pair (some call)
    else details.byPair
  byId := Function.update details.byId call.targetEvidenceId (some call)
  edges := details.edges ++ [call.edge]
  truncated := details.truncated

def CallDetails.addAll (details : CallDetails) (evidence : BoundedResult CallEvidenceResult) :
    CallDetails :=
  evidence.items.foldl CallDetails.add
    { details with truncated := details.truncated || evidence.truncated }

/-- What the answer knows of an edge. -/
def CallDetails.of (details : CallDetails) (edge : IndexedEdge) : Option CallEvidenceResult :=
  (details.byId edge.id).or (details.byPair (IndexedEdge.pair edge))

/-- The directions of calls that a direction stands for. -/
def GraphRequest.callDirections (request : GraphRequest) : List GraphDirection :=
  if request.direction = .both then [.outgoing, .incoming] else [request.direction]

/-- The directions in which the calls of the origin are read. -/
def readDirections (request : GraphRequest) : List GraphDirection :=
  if request.relations = none ∨ GraphRelation.calls ∈ request.filter then request.callDirections
  else []

def callDetails (store : GraphStore) (root : Option String) (scope : BuildScope)
    (request : GraphRequest) (originId : String) : Except StoreError CallDetails :=
  (readDirections request).foldlM (fun details direction => do
    let evidence ← calls store root scope originId direction request.maxResults
    .ok (details.addAll evidence)) CallDetails.none

/-! ## Edges of the index -/

/-- The edges that the limits leave, and whether more were seen. -/
def boundedEdges (store : GraphStore) (root : Option String) (scope : BuildScope)
    (request : GraphRequest) (originId : String) :
    Except StoreError (List IndexedEdge × Bool) := do
  let edges ← store.neighbors originId request.filter request.depth request.direction
    (some (request.maxResults + 1)) (some request.perNodeFanout) root scope.variants
  if request.maxResults < edges.length then .ok (edges, true)
  else if request.perNodeFanout ≤ edges.length then do
    -- The primary query cannot reveal when its per-node SQL limit hid one more edge.
    let probe ← store.neighbors originId request.filter request.depth request.direction
      (some (request.maxResults + 1)) (some (request.perNodeFanout + 1)) root scope.variants
    .ok (edges, probe.any fun edge => edge.id ∉ edges.map IndexedEdge.id)
  else .ok (edges, false)

/-! ## The answer -/

/-- `legacy_and_non_call_edges` -/
def legacyEdges (edges evidence : List IndexedEdge) : List IndexedEdge :=
  edges.filter fun edge =>
    edge.relation ≠ .calls ∨ IndexedEdge.pair edge ∉ evidence.map IndexedEdge.pair

/-- `edge_sort_key` -/
def edgeSortKey (details : CallDetails) (edge : IndexedEdge) : Bool ×ₗ List String :=
  toLex ((details.of edge).map CallEvidenceResult.certainty ≠ some .certain, edgeOrder edge)

def AtOrigin (originId : String) (edge : IndexedEdge) : Prop :=
  originId = edge.sourceId.val ∨ originId = edge.targetId.val

instance (originId : String) (edge : IndexedEdge) : Decidable (AtOrigin originId edge) :=
  inferInstanceAs (Decidable (_ ∨ _))

def originEdges (details : CallDetails) (originId : String) (edges : List IndexedEdge) :
    List IndexedEdge :=
  sortBy (edgeSortKey details)
    ((legacyEdges edges details.edges ++ details.edges).filter fun edge => AtOrigin originId edge)

def deeperEdges (details : CallDetails) (originId : String) (edges : List IndexedEdge) :
    List IndexedEdge :=
  (legacyEdges edges details.edges).filter fun edge => ¬ AtOrigin originId edge

/-- The edges of the answer in their order, before the cut at the number of results. -/
def answerEdges (request : GraphRequest) (details : CallDetails) (originId : String)
    (edges : List IndexedEdge) : List IndexedEdge :=
  sortBy (edgeSortKey details) (deeperEdges details originId edges ++
    (originEdges details originId edges).take request.perNodeFanout)

def renderEdges (store : GraphStore) (root : Option String) (details : CallDetails)
    (edges : List IndexedEdge) : Except StoreError (List GraphEdgeResult) :=
  edges.filterMapM fun edge => renderEdge store root edge (details.of edge)

/-- The general path of `_graph_tool`. -/
def navigate (store : GraphStore) (root : Option String) (scope : BuildScope)
    (request : GraphRequest) (origin : CodeSymbol) : Except StoreError GraphResult := do
  let originId := origin.text.id.val
  let (edges, truncated) ← boundedEdges store root scope request originId
  let details ← callDetails store root scope request originId
  let answer := answerEdges request details originId edges
  let rendered ← renderEdges store root details (answer.take request.maxResults)
  .ok (graphResult request scope origin rendered (truncated || details.truncated ||
    decide (request.perNodeFanout < (originEdges details originId edges).length) ||
    decide (request.maxResults < answer.length)))

/-- Direct calls are answered from the evidence alone, when there is any. -/
def AsksCalls (request : GraphRequest) : Prop :=
  request.relations = some [.calls] ∧ request.depth = 1 ∧ request.direction ≠ .both

instance (request : GraphRequest) : Decidable (AsksCalls request) :=
  inferInstanceAs (Decidable (_ ∧ _))

/-- The calls of the origin that are rendered, and whether there are more. -/
def directCalls (store : GraphStore) (root : Option String) (scope : BuildScope)
    (request : GraphRequest) (originId : String) :
    Except StoreError (List GraphEdgeResult × Bool) := do
  let evidence ← calls store root scope originId request.direction request.maxResults
  let rendered ← evidence.items.filterMapM fun call =>
    renderEdge store root call.edge (some call)
  .ok (rendered, evidence.truncated)

/-- `graph_runtime` -/
def graphRuntime (store : GraphStore) (root : Option String) (scope : BuildScope)
    (request : GraphRequest) : Except ToolFailure GraphResult := do
  match ← internal (store.getSymbol request.symbolId root scope.variants) with
  | none => .error symbolAbsent
  | some origin =>
      if AsksCalls request then
        let (rendered, truncated) ←
          internal (directCalls store root scope request origin.text.id.val)
        if rendered ≠ [] then .ok (graphResult request scope origin rendered truncated)
        else internal (navigate store root scope request origin)
      else internal (navigate store root scope request origin)

/-- `_graph_tool` in the runtime of a resolved scope, with the text of its failure. -/
def graphTool (store : GraphStore) (root : Option String) (scope : BuildScope)
    (request : GraphRequest) : Except String GraphResult :=
  match graphRuntime store root scope request with
  | .error failure => .error failure.message
  | .ok result => .ok result

end CppContextEngine.Server
