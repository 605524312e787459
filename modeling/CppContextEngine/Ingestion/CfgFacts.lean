import CppContextEngine.Ingestion.NavigationFacts

/-!
# Control-flow facts

`_FactBatchBuilder._cfg_facts` and its row builders.  The checks stand before
the rows: a stored foreign key cannot say that a block belongs to the graph of
the row that names it.
-/

namespace CppContextEngine.Ingestion

open CppContextEngine.Foundation CppContextEngine.Models

variable [NativeLibrary]

structure CfgRows where
  graphs : List CfgGraph := []
  blocks : List CfgBlock := []
  elements : List CfgElement := []
  edges : List CfgEdge := []

def crossesGraphs {α : Type} : Except IngestError α :=
  protocolError "analyzer CFG facts have inconsistent graph references"

namespace FactContext

variable (ctx : FactContext) (tables : FactTables)

/-! ## Keys -/

def cfgGraphEntry (fact : Record) : Except IngestError (String × Owned) := do
  let key ← fact.string "key"
  let functionId ← tables.knownId (← fact.string "function_key")
  return (key,
    { id := rowId ⟨"cfg_", by decide +kernel⟩
        [ctx.buildVariant, ctx.configurationId, ctx.unitId, functionId.val]
      owner := functionId })

def cfgBlockEntry (fact : Record) : Except IngestError (String × Owned) := do
  let graphId ← tables.knownCfgGraph (← fact.string "graph_key")
  let index ← fact.nonNegativeInteger "index"
  let key ← fact.string "key"
  return (key,
    { id := rowId ⟨"cfg_block_", by decide +kernel⟩ [graphId.val, toString index]
      owner := graphId })

/-- The elements so far, and `element_graph_mismatch`. -/
abbrev CfgElementState := Table Owned × Bool

def cfgElementStep (state : CfgElementState) (fact : Record) :
    Except IngestError CfgElementState := do
  let fact ← tables.restored fact
  let graphId ← tables.knownCfgGraph (← fact.string "graph_key")
  let blockKey ← fact.string "block_key"
  let blockId ← tables.knownCfgBlock blockKey
  let index ← fact.nonNegativeInteger "index"
  let key ← fact.string "key"
  let element : Owned :=
    { id := rowId ⟨"cfg_element_", by decide +kernel⟩
        [graphId.val, blockId.val, toString index]
      owner := graphId }
  return (state.1.insert key element, state.2 || ownerOf tables.cfgBlocks blockKey ≠ some graphId)

/-! ## Checks -/

/-- `exceptional_exit_block_key`, as the check of a graph reads it. -/
def exceptionalExitKey (fact : Record) : Except IngestError (Option String) :=
  match fact.get "exceptional_exit_block_key" with
  | .null => .ok none
  | .text key =>
      if key = "" then protocolError "analyzer CFG exceptional exit key is invalid"
      else .ok (some key)
  | _ => protocolError "analyzer CFG exceptional exit key is invalid"

/-- The entry and the exits of a graph are among its blocks. -/
def checkCfgGraph (fact : Record) : Except IngestError Unit := do
  let graphId ← tables.knownCfgGraph (← fact.string "key")
  let entry ← fact.string "entry_block_key"
  let normalExit ← fact.string "normal_exit_block_key"
  let exceptionalExit ← exceptionalExitKey fact
  if ∃ key ∈ entry :: normalExit :: exceptionalExit.toList,
      ownerOf tables.cfgBlocks key ≠ some graphId then crossesGraphs
  else return

/-- Both ends of an edge are among the blocks of its graph. -/
def checkCfgEdge (fact : Record) : Except IngestError Unit := do
  let graphId ← tables.knownCfgGraph (← fact.string "graph_key")
  let source ← fact.string "source_block_key"
  if ownerOf tables.cfgBlocks source ≠ some graphId then crossesGraphs
  else do
    let target ← fact.string "target_block_key"
    if ownerOf tables.cfgBlocks target ≠ some graphId then crossesGraphs else return

/-! ## Rows -/

/-- `_cfg_graph_fact` -/
def cfgGraphFact (fact : Record) : Except IngestError CfgGraph := do
  let id ← tables.knownCfgGraph (← fact.string "key")
  let factSchemaVersion ← fact.integer "fact_schema_version"
  let clangMajor ← fact.integer "clang_major"
  throwIf (factSchemaVersion ≠ 1 ∨ clangMajor ≠ requiredClangMajor)
    (IngestError.protocol "analyzer returned an unsupported CFG fact schema")
  let buildOptions ← fact.mapping "build_options"
  let exceptionalKey ← fact.textOrNone "exceptional_exit_block_key"
    "analyzer CFG exceptional exit key is invalid"
  let functionSymbolId ← tables.knownId (← fact.string "function_key")
  let entryBlockId ← tables.knownCfgBlock (← fact.string "entry_block_key")
  let normalExitBlockId ← tables.knownCfgBlock (← fact.string "normal_exit_block_key")
  let exceptionalExitBlockId ← knownIfGiven tables.knownCfgBlock exceptionalKey
  return {
    id, functionSymbolId, entryBlockId, normalExitBlockId, exceptionalExitBlockId
    translationUnitId := ctx.unitId
    buildConfigurationId := ctx.configurationId
    buildVariant := ctx.buildVariant
    clangMajor, factSchemaVersion, buildOptions }

/-- `_cfg_block_fact` -/
def cfgBlockFact (fact : Record) : Except IngestError CfgBlock := do
  let id ← tables.knownCfgBlock (← fact.string "key")
  let graphId ← tables.knownCfgGraph (← fact.string "graph_key")
  let index ← fact.nonNegativeInteger "index"
  let role ← modelEnum (← fact.string "role")
  let reachable ← fact.boolean "reachable"
  let terminatorKind ← fact.optionalString "terminator_kind"
  let terminatorText ← fact.optionalString "terminator_text"
  let terminatorSpellingSpan ← ctx.optionalSpan fact "terminator_spelling_span"
  let terminatorExpansionSpan ← ctx.optionalSpan fact "terminator_expansion_span"
  let labelKind ← fact.optionalString "label_kind"
  let labelText ← fact.optionalString "label_text"
  return {
    id, graphId, index, role, reachable, terminatorKind, terminatorText
    terminatorSpellingSpan, terminatorExpansionSpan, labelKind, labelText
    translationUnitId := ctx.unitId
    buildConfigurationId := ctx.configurationId
    buildVariant := ctx.buildVariant }

/-- `_cfg_element_fact` -/
def cfgElementFact (fact : Record) : Except IngestError CfgElement := do
  let graphId ← tables.knownCfgGraph (← fact.string "graph_key")
  let blockId ← tables.knownCfgBlock (← fact.string "block_key")
  let index ← fact.nonNegativeInteger "index"
  let metadata ← fact.mapping "metadata"
  let id ← tables.knownCfgElement (← fact.string "key")
  let kind ← fact.string "kind"
  let statementClass ← fact.optionalString "statement_class"
  let text ← fact.optionalString "text"
  let spellingSpan ← ctx.optionalSpan fact "spelling_span"
  let expansionSpan ← ctx.optionalSpan fact "expansion_span"
  let kind ← modelText kind
  return {
    id, graphId, blockId, index, kind, statementClass, text, spellingSpan, expansionSpan
    translationUnitId := ctx.unitId
    buildConfigurationId := ctx.configurationId
    buildVariant := ctx.buildVariant
    metadata }

/-- `str(value)` of a Boolean -/
def pythonBool (value : Bool) : String := if value then "True" else "False"

/-- `_cfg_edge_fact` -/
def cfgEdgeFact (fact : Record) : Except IngestError CfgEdge := do
  let graphId ← tables.knownCfgGraph (← fact.string "graph_key")
  let sourceBlockId ← tables.knownCfgBlock (← fact.string "source_block_key")
  let targetBlockId ← tables.knownCfgBlock (← fact.string "target_block_key")
  let successorIndex ← fact.nonNegativeInteger "successor_index"
  let kind ← modelEnum (ε := CfgEdgeKind) (← fact.string "kind")
  let feasible ← fact.boolean "feasible"
  return {
    id := rowId ⟨"cfg_edge_", by decide +kernel⟩
      [graphId.val, sourceBlockId.val, targetBlockId.val, toString successorIndex,
        StrEnum.value kind, pythonBool feasible]
    graphId, sourceBlockId, targetBlockId, kind, successorIndex, feasible
    translationUnitId := ctx.unitId
    buildConfigurationId := ctx.configurationId
    buildVariant := ctx.buildVariant }

/-! ## The pass -/

/-- The dictionaries that the pass fills, and `element_graph_mismatch`. -/
def cfgTables (facts graphFacts blockFacts : List Record) :
    Except IngestError (FactTables × Bool) := do
  let cfgGraphs ← fillTable graphFacts (ctx.cfgGraphEntry tables)
  let tables := { tables with cfgGraphs }
  let cfgBlocks ← fillTable blockFacts (cfgBlockEntry tables)
  let tables := { tables with cfgBlocks }
  let elements ← (factRecords facts "cfg_element_v1").foldlM (cfgElementStep tables) (∅, false)
  return ({ tables with cfgElements := elements.1 }, elements.2)

/-- The checks and the rows behind the dictionaries. -/
def cfgRows (facts graphFacts blockFacts : List Record) (mismatch : Bool) :
    Except IngestError CfgRows := do
  let _ ← graphFacts.mapM (checkCfgGraph tables)
  if mismatch then crossesGraphs
  else do
    let _ ← tables.rowsOf facts "cfg_edge_v1" (checkCfgEdge tables)
    let graphs ← graphFacts.mapM (ctx.cfgGraphFact tables)
    let blocks ← blockFacts.mapM (ctx.cfgBlockFact tables)
    let elements ← tables.rowsOf facts "cfg_element_v1" (ctx.cfgElementFact tables)
    let edges ← tables.rowsOf facts "cfg_edge_v1" (ctx.cfgEdgeFact tables)
    return {
      graphs := sortBy (fun row => row.id.val) graphs
      blocks := sortBy (fun row => toLex (row.graphId.val, toLex (row.index, row.id.val))) blocks
      elements := sortBy (fun row =>
        toLex (row.graphId.val, toLex (row.blockId.val, toLex (row.index, row.id.val)))) elements
      edges := sortBy (fun row =>
        toLex (row.graphId.val, toLex (row.sourceBlockId.val, toLex (row.successorIndex,
          toLex (row.targetBlockId.val, toLex (StrEnum.value row.kind, row.id.val)))))) edges }

/-- `_cfg_facts` -/
def cfgFacts (facts : List Record) : Except IngestError (FactTables × CfgRows) := do
  let graphFacts ← tables.factList facts "cfg_graph_v1"
  let blockFacts ← tables.factList facts "cfg_block_v1"
  let filled ← ctx.cfgTables tables facts graphFacts blockFacts
  let rows ← ctx.cfgRows filled.1 facts graphFacts blockFacts filled.2
  return (filled.1, rows)

end FactContext

end CppContextEngine.Ingestion
