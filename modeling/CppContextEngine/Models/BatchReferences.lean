import CppContextEngine.Models.BatchRows
import CppContextEngine.Models.Summaries
import CppContextEngine.Storage.BuildVariants

/-!
# References between the rows of a batch

The store's foreign keys say that a referenced row exists.  They cannot say
that it belongs where the row that names it belongs: a block to the graph of
its edge, a location to the analysis of its access.  A closed batch has both.
-/

namespace CppContextEngine.Models

namespace IngestionBatch

variable (batch : IngestionBatch)

/-! ## Referenced rows -/

def HasSymbol (id : String) : Prop := ∃ row ∈ batch.symbols, row.id.val = id

def HasCallsite (id : String) : Prop := ∃ row ∈ batch.callsites, row.id.val = id

/-- A graph of a function. -/
def HasGraph (function id : String) : Prop :=
  ∃ row ∈ batch.cfgGraphs, row.id.val = id ∧ row.functionSymbolId.val = function

/-- A block of a graph. -/
def HasBlock (graph id : String) : Prop :=
  ∃ row ∈ batch.cfgBlocks, row.id.val = id ∧ row.graphId.val = graph

/-- An element of a graph. -/
def HasElement (graph id : String) : Prop :=
  ∃ row ∈ batch.cfgElements, row.id.val = id ∧ row.graphId.val = graph

/-- An analysis of a graph. -/
def HasAnalysis (graph id : String) : Prop :=
  ∃ row ∈ batch.dataFlowAnalyses, row.id.val = id ∧ row.graphId.val = graph

/-- A location of an analysis. -/
def HasLocation (analysis id : String) : Prop :=
  ∃ row ∈ batch.memoryLocations, row.id.val = id ∧ row.analysisId.val = analysis

/-- An access of an analysis. -/
def HasAccess (analysis id : String) : Prop :=
  ∃ row ∈ batch.dataAccesses, row.id.val = id ∧ row.analysisId.val = analysis

/-- A summary with a parameter, and with a location and an access of its analysis. -/
def HasSummary (id : String) (parameter : Option Nat) (location access : Option String) : Prop :=
  ∃ row ∈ batch.functionSummaries, row.id = id ∧
    (∀ index ∈ parameter, index < row.parameterModes.length) ∧
      (∀ id ∈ location, batch.HasLocation row.analysisId id) ∧
        ∀ id ∈ access, batch.HasAccess row.analysisId id

/-! ## Closed batches -/

/-- Symbols, occurrences and edges come in the order of their ids, and no id comes twice. -/
structure NavigationSorted : Prop where
  symbols : (batch.symbols.map fun row => row.id.val).Pairwise (· < ·)
  occurrences : (batch.occurrences.map fun row => row.id.val).Pairwise (· < ·)
  edges : (batch.edges.map fun row => row.id.val).Pairwise (· < ·)

/-- Occurrences, edges and calls refer to symbols and callsites of the batch. -/
structure NavigationClosed : Prop where
  occurrences : ∀ row ∈ batch.occurrences, batch.HasSymbol row.symbolId.val ∧
    ∀ id ∈ row.enclosingSymbolId, batch.HasSymbol id.val
  edges : ∀ row ∈ batch.edges, batch.HasSymbol row.sourceId.val ∧ batch.HasSymbol row.targetId.val
  callsites : ∀ row ∈ batch.callsites, batch.HasSymbol row.ownerSymbolId.val ∧
    (∀ id ∈ row.staticTargetSymbolId, batch.HasSymbol id.val) ∧
      ∀ frame ∈ row.expansionStack, batch.HasSymbol frame.macroSymbolId.val
  targets : ∀ row ∈ batch.callTargets, batch.HasCallsite row.callsiteId.val ∧
    batch.HasSymbol row.targetSymbolId.val

/-- What a graph owns refers to what the same graph owns. -/
structure ControlFlowClosed : Prop where
  graphs : ∀ row ∈ batch.cfgGraphs, batch.HasSymbol row.functionSymbolId.val ∧
    batch.HasBlock row.id.val row.entryBlockId.val ∧
      batch.HasBlock row.id.val row.normalExitBlockId.val ∧
        ∀ id ∈ row.exceptionalExitBlockId, batch.HasBlock row.id.val id.val
  blocks : ∀ row ∈ batch.cfgBlocks, ∃ function, batch.HasGraph function row.graphId.val
  elements : ∀ row ∈ batch.cfgElements, (∃ function, batch.HasGraph function row.graphId.val) ∧
    batch.HasBlock row.graphId.val row.blockId.val
  edges : ∀ row ∈ batch.cfgEdges, (∃ function, batch.HasGraph function row.graphId.val) ∧
    batch.HasBlock row.graphId.val row.sourceBlockId.val ∧
      batch.HasBlock row.graphId.val row.targetBlockId.val

/-- The two ends of evidence in an analysis. -/
def HasEnds (analysis : String) : EvidencePair → Prop
  | .accesses source target => batch.HasAccess analysis source.val ∧
      batch.HasAccess analysis target.val
  | .locations source target => batch.HasLocation analysis source.val ∧
      batch.HasLocation analysis target.val

/-- What an analysis owns refers to what the same analysis and its graph own. -/
structure DataFlowClosed : Prop where
  analyses : ∀ row ∈ batch.dataFlowAnalyses, ∃ function, batch.HasGraph function row.graphId.val
  locations : ∀ row ∈ batch.memoryLocations, batch.HasAnalysis row.graphId.val row.analysisId.val ∧
    (∀ id ∈ row.declarationSymbolId, batch.HasSymbol id.val) ∧
      ∀ id ∈ row.baseLocationId, batch.HasLocation row.analysisId.val id.val
  accesses : ∀ row ∈ batch.dataAccesses, batch.HasAnalysis row.graphId.val row.analysisId.val ∧
    batch.HasLocation row.analysisId.val row.locationId.val ∧
      batch.HasBlock row.graphId.val row.blockId.val ∧
        (∀ id ∈ row.cfgElementId, batch.HasElement row.graphId.val id.val) ∧
          ∀ id ∈ row.pointeeSymbolIds, ∃ symbol, batch.HasSymbol symbol ∧
            id.val = Storage.strip symbol
  evidence : ∀ row ∈ batch.dataFlowEvidence,
    batch.HasAnalysis row.graphId.val row.analysisId.val ∧
      batch.HasEnds row.analysisId.val row.pair

/-- What a summary owns refers to parameters and to what its analysis owns. -/
structure SummariesClosed : Prop where
  summaries : ∀ row ∈ batch.functionSummaries, batch.HasSymbol row.functionSymbolId ∧
    batch.HasGraph row.functionSymbolId row.graphId ∧
      batch.HasAnalysis row.graphId row.analysisId ∧
        row.parameterLocationIds.length = row.parameterModes.length ∧
          ∀ id ∈ row.parameterLocationIds, batch.HasLocation row.analysisId id
  effects : ∀ row ∈ batch.summaryEffects,
    batch.HasSummary row.summaryId row.parameterIndex row.locationId row.sourceAccessId
  origins : ∀ row ∈ batch.summaryReturnOrigins,
    batch.HasSummary row.summaryId row.parameterIndex row.locationId none ∧
      ∀ id ∈ row.callsiteId, batch.HasCallsite id
  arguments : ∀ row ∈ batch.callArgumentBindings,
    batch.HasSummary row.callerSummaryId row.parameterIndex row.locationId none ∧
      batch.HasCallsite row.callsiteId
  results : ∀ row ∈ batch.callResultBindings,
    batch.HasSummary row.callerSummaryId none (some row.locationId)
      (some row.definitionAccessId) ∧ batch.HasCallsite row.callsiteId

end IngestionBatch

end CppContextEngine.Models
