import CppContextEngine.Ingestion.SummaryFacts

/-!
# The batch of a unit

`_FactBatchBuilder.build`: the passes one after another, each with the tables
that the earlier ones filled.
-/

namespace CppContextEngine.Ingestion

open CppContextEngine.Foundation CppContextEngine.Models

variable [NativeLibrary]

namespace FactContext

variable (ctx : FactContext)

/-! ## Calls -/

/-- One entry of the comprehension that makes `sites_by_key`. -/
def siteStep (tables : FactTables) (sites : SitesByKey) (fact : Record) :
    Except IngestError SitesByKey := do
  let key ← fact.string "key"
  return upsert sites key (← ctx.callsiteFact tables fact)

def resolutionStep (tables : FactTables) (sites : SitesByKey) (fact : Record) :
    Except IngestError SitesByKey := do
  resolutionFact sites (← tables.restored fact)

def targetRow (tables : FactTables) (fact : Record) : Except Raised CallTarget := do
  ctx.callTargetFact tables (← tables.restored fact)

structure CallRows where
  callsites : List CallSiteRow
  targets : List CallTarget

/-- The ids of callsites, and the callsites with their resolutions. -/
def callSites (facts : List Record) (tables : FactTables) :
    Except IngestError (FactTables × SitesByKey) := do
  let siteFacts ← tables.factList facts "callsite_v1"
  let tables ← siteFacts.foldlM ctx.callsiteKeyStep tables
  let sites ← siteFacts.foldlM (ctx.siteStep tables) []
  let sites ← (factRecords facts "callsite_resolution_v1").foldlM (resolutionStep tables) sites
  return (tables, sites)

/-- `_call_facts` -/
def callFacts (facts : List Record) (tables : FactTables) :
    Except Raised (FactTables × CallRows) := do
  let (tables, sites) ← ctx.callSites facts tables
  let targets ← (factRecords facts "call_target_v1").mapM (ctx.targetRow tables)
  return (tables,
    { callsites := sortBy (fun site => site.id.val) (sites.map Prod.snd)
      targets := sortBy (fun target => toLex (target.callsiteId.val,
        toLex (target.targetSymbolId.val, target.id.val))) targets })

/-! ## The full profile -/

structure DeepRows where
  cfg : CfgRows := {}
  dataFlow : DataFlowRows := {}
  summaries : SummaryRows := {}

/-- The passes that only the full profile runs. -/
def deepFacts (facts : List Record) (tables : FactTables) : Except IngestError DeepRows := do
  let wireIdentities ← prepareWireKeys facts
  let (tables, cfg) ← ctx.cfgFacts { tables with wireIdentities } facts
  let (tables, dataFlow) ← ctx.dataFlowFacts tables facts
  let (_, summaries) ← ctx.interproceduralFacts tables facts
  return { cfg, dataFlow, summaries }

/-- What the profile asks for beside the navigation facts. -/
def profileFacts (facts : List Record) (tables : FactTables) : Except IngestError DeepRows :=
  match ctx.profile with
  | .full => ctx.deepFacts facts tables
  | .navigation => return {}

/-! ## The unit -/

/-- `sorted(set(self.files.values()))`, as `Path` compares absolute paths. -/
def dependencyPaths (tables : FactTables) : List String :=
  sortBy (fun path => path.toList.splitOn '/') tables.files.items.dedup

/-- The row of the unit. -/
def unitRow (tables : FactTables) : TranslationUnit where
  id := ctx.unitId
  buildConfigurationId := ctx.configurationId
  sourcePath := ctx.sourcePath
  contentHash := ctx.fileHash ctx.sourcePath
  dependencies := (dependencyPaths tables).map fun path => (path, ctx.fileHash path)
  buildVariant := ctx.buildVariant
  analysisBackend := "clang-libtooling"
  advancedFactsComplete := ctx.profile = .full
  indexProfile := ctx.profile
  navigationFactsComplete := true
  cfgFactsComplete := ctx.profile = .full
  dataFlowFactsComplete := ctx.profile = .full
  summaryFactsComplete := ctx.profile = .full
  analyzerIdentity := ctx.analyzerIdentity

/-- The batch of the rows. -/
def batchOf (tables : FactTables) (occurrences : Table SymbolOccurrence) (edges : Table EdgeRow)
    (calls : CallRows) (deep : DeepRows) : IngestionBatch where
  buildConfigurations := [ctx.configurationId]
  translationUnits := [ctx.unitRow tables]
  symbols := tables.symbols.items
  occurrences := occurrences.items
  edges := edges.items
  callsites := calls.callsites
  callTargets := calls.targets
  cfgGraphs := deep.cfg.graphs
  cfgBlocks := deep.cfg.blocks
  cfgElements := deep.cfg.elements
  cfgEdges := deep.cfg.edges
  dataFlowAnalyses := deep.dataFlow.analyses
  memoryLocations := deep.dataFlow.locations
  dataAccesses := deep.dataFlow.accesses
  dataFlowEvidence := deep.dataFlow.evidence
  functionSummaries := deep.summaries.summaries
  summaryEffects := deep.summaries.effects
  summaryReturnOrigins := deep.summaries.origins
  callArgumentBindings := deep.summaries.arguments
  callResultBindings := deep.summaries.results

/-- The tables behind files, symbols and includes. -/
def symbolTables (facts : List Record) : Except Raised FactTables := do
  let tables ← ctx.filePass facts
  let tables ← ctx.symbolPass facts tables
  let tables ← ctx.includePass facts tables
  return tables

/-- `build` -/
def build (facts : List Record) : Except Raised IngestionBatch := do
  let tables ← ctx.symbolTables facts
  let occurrences ← ctx.occurrencePass facts tables
  let edges ← ctx.edgePass facts tables
  let (tables, calls) ← ctx.callFacts facts tables
  let deep ← ctx.profileFacts facts tables
  return ctx.batchOf tables occurrences edges calls deep

end FactContext

end CppContextEngine.Ingestion
