import CppContextEngine.Server.AnalysisQueries
import CppContextEngine.Storage.SummaryPayloadCodec
import Mathlib.Algebra.GroupWithZero.Nat

/-!
# Budgets of an answer

What an answer shows of all its graphs together stays within the request's
bounds.  An answer that is available and not truncated shows the covered
graphs whole.
-/

namespace CppContextEngine.Server

open CppContextEngine.Foundation CppContextEngine.Models CppContextEngine.Storage

namespace AnalysisQueryService

variable (service : AnalysisQueryService)

/-! ## Whole answers -/

def projectId : Except QueryError Nat :=
  (service.store.projectIdOf (some service.projectRoot)).mapError .store

/-- Every graph of the function in the scope and the covered units. -/
def coveredGraphs (target : Target) : Except QueryError (List CfgGraph) := do
  let projectId ← service.projectId
  return service.store.graphRows projectId target.scope.variants target.functionSymbolId
    target.translationUnitIds

/-- Every summary of the function in the scope and the covered units. -/
def coveredSummaries (target : Target) : Except QueryError (List FunctionSummary) := do
  let projectId ← service.projectId
  return service.store.functionSummaryRows projectId target.scope.variants
    target.functionSymbolId target.translationUnitIds

/-- A graph with all its rows. -/
def wholeGraph (graph : CfgGraph) : Except QueryError CfgGraphResult := do
  let projectId ← service.projectId
  let scope ← graphScope graph
  service.graphResult graph true
    (service.store.blockRows projectId scope.variants graph.id.val)
    (service.store.elementRows projectId scope.variants graph.id.val)
    (service.store.edgeRows projectId scope.variants graph.id.val)

/-- What the request promises of an answer to `control_flow`. -/
structure ControlFlowExact (request : CfgRequest) (result : ControlFlowResult) : Prop where
  blocks : (result.graphs.map fun graph => graph.blocks.length).sum ≤ request.maxBlocks
  elements : (result.graphs.map fun graph => graph.elements.length).sum ≤ request.maxElements
  edges : (result.graphs.map fun graph => graph.edges.length).sum ≤ request.maxEdges
  complete : ∀ graph ∈ result.graphs, graph.complete = true → ∃ target rows,
    service.target request.functionSymbolId request.materializationId request.builds =
        .ok target ∧
      service.coveredGraphs target = .ok rows ∧ ∃ row ∈ rows, service.wholeGraph row = .ok graph
  whole : result.available = true → result.truncated = false → ∃ target rows,
    service.target request.functionSymbolId request.materializationId request.builds =
        .ok target ∧
      service.coveredGraphs target = .ok rows ∧ rows.mapM service.wholeGraph = .ok result.graphs

/-- A section of a summary with all its facts. -/
def wholeSection {α : Type} (facts : String → Except PageError (List α))
    (summary : Option FunctionSummary) : Except QueryError (List α) :=
  match summary with
  | none => .ok []
  | some summary => (facts summary.id).mapError .page

section DataFlow

variable [Zlib] [PayloadLibrary]

/-- An analysis with all its rows and all facts of its summary. -/
def wholeTurn (target : Target) (graph : CfgGraph) (scope : BuildScope)
    (analysis : DataFlowAnalysis) (summary : Option FunctionSummary) :
    Except QueryError DataFlowAnalysisResult := do
  let root := some service.projectRoot
  let projectId ← service.projectId
  let effects ← wholeSection (service.store.allEffects · root (some scope)) summary
  let origins ← wholeSection (service.store.allReturnOrigins · root (some scope)) summary
  let flows ← wholeSection (fun id => .ok (service.store.flowRows projectId scope.variants id
    target.translationUnitIds)) summary
  service.analysisResult target.coverage graph analysis summary
    { locations := service.store.locationRows projectId scope.variants analysis.id.val
      accesses := service.store.accessRows projectId scope.variants analysis.id.val
      evidence := service.store.evidenceRows projectId scope.variants analysis.id.val
      effects
      returnOrigins := origins
      interprocedural := flows }

/-- The whole analysis of a graph, when the graph has one. -/
def wholeAnalysis (target : Target) (summaries : List FunctionSummary) (graph : CfgGraph) :
    Except QueryError (Option DataFlowAnalysisResult) := do
  let projectId ← service.projectId
  let scope ← graphScope graph
  match service.store.analysisRows projectId scope.variants graph.id.val with
  | [] => return none
  | analysis :: _ =>
      some <$> service.wholeTurn target graph scope analysis (graphSummary summaries graph)

/-- The evidence of an analysis and the three sections of its summary. -/
def evidenceCount (analysis : DataFlowAnalysisResult) : Nat :=
  analysis.evidence.length + analysis.effects.length + analysis.returnOrigins.length +
    analysis.interprocedural.length

/-- What the request promises of an answer to `data_flow`. -/
structure DataFlowExact (request : FlowRequest) (result : DataFlowResult) : Prop where
  locations : (result.analyses.map fun analysis => analysis.locations.length).sum ≤
    request.maxLocations
  accesses : (result.analyses.map fun analysis => analysis.accesses.length).sum ≤
    request.maxAccesses
  evidence : (result.analyses.map evidenceCount).sum ≤ request.maxEvidence
  whole : result.available = true → result.truncated = false → ∃ target rows summaries analyses,
    service.target request.functionSymbolId request.materializationId request.builds =
        .ok target ∧
      service.coveredGraphs target = .ok rows ∧ service.coveredSummaries target = .ok summaries ∧
        rows.mapM (service.wholeAnalysis target summaries) = .ok analyses ∧
          result.analyses = analyses.reduceOption

end DataFlow

/-! ## Pages of the store -/

variable {service}

theorem projectId_eq_ok {projectId : Nat} : service.projectId = .ok projectId ↔
    service.store.projectIdOf (some service.projectRoot) = .ok projectId :=
  mapError_eq_ok

/-- The graphs of an answer are the first covered ones. -/
theorem graphPage_eq {target : Target} {limit : Nat} {page : BoundedCfgResult CfgGraph}
    (h : service.store.cfgGraphPage (some service.projectRoot) (some target.scope) limit
      target.functionSymbolId target.translationUnitIds = .ok page) :
    ∃ rows, service.coveredGraphs target = .ok rows ∧ page = SummaryStore.pageOf limit rows := by
  obtain ⟨projectId, hproject, hpage⟩ := service.store.boundedRows_eq_ok h
  refine ⟨_, ?_, hpage⟩
  simp [coveredGraphs, projectId_eq_ok.mpr hproject, SymbolStore.scopeNames, bind, Except.bind,
    pure, Except.pure]

theorem summaryPage_eq {target : Target} {limit : Nat} {page : BoundedCfgResult FunctionSummary}
    (h : service.store.functionSummaryPage (some service.projectRoot) (some target.scope) limit
      target.functionSymbolId target.translationUnitIds = .ok page) :
    ∃ rows, service.coveredSummaries target = .ok rows ∧
      page = SummaryStore.pageOf limit rows := by
  obtain ⟨projectId, hproject, hpage⟩ := service.store.boundedRows_eq_ok h
  refine ⟨_, ?_, hpage⟩
  simp [coveredSummaries, projectId_eq_ok.mpr hproject, SymbolStore.scopeNames, bind, Except.bind,
    pure, Except.pure]

/-- The sections of a covered graph are those of its own build. -/
theorem graphScope_variants {target : Target} {rows : List CfgGraph} {graph : CfgGraph}
    {scope : BuildScope} (hrows : service.coveredGraphs target = .ok rows) (hgraph : graph ∈ rows)
    (hscope : graphScope graph = .ok scope) : scope.variants = [graph.buildVariant] := by
  obtain ⟨projectId, _, hrows⟩ := bind_eq_ok.mp hrows
  cases hrows
  obtain ⟨⟨hbuild, -⟩, -⟩ := (AnalysisStore.mem_factsOf projectId).mp ((mem_sortBy _).mp hgraph)
  exact scopeOfNames_single hbuild (mapError_eq_ok.mp hscope)

/-! ## Control flow -/

theorem CfgBudget.spent_eq_false {left : CfgBudget} :
    left.spent = false ↔ 0 < left.blocks ∧ 0 < left.elements ∧ 0 < left.edges := by
  simp only [spent, decide_eq_false_iff_not]
  omega

/-- A result shows the rows that it is made of, in their order. -/
theorem graphResult_eq_ok {graph : CfgGraph} {complete : Bool} {blocks : List CfgBlock}
    {elements : List CfgElement} {edges : List CfgEdge} {output : CfgGraphResult}
    (h : service.graphResult graph complete blocks elements edges = .ok output) :
    output.complete = complete ∧
      output.blocks.map CfgBlockResult.blockId = blocks.map CfgBlock.id ∧
      output.elements.map CfgElementResult.elementId = elements.map CfgElement.id ∧
      output.edges.map CfgEdgeResult.edgeId = edges.map CfgEdge.id := by
  obtain ⟨blockResults, hblocks, h⟩ := bind_eq_ok.mp h
  obtain ⟨elementResults, helements, h⟩ := bind_eq_ok.mp h
  cases h
  refine ⟨rfl, map_of_mapM ?_ hblocks, map_of_mapM ?_ helements, by simp [edgeResult]⟩
  · intro block result hblock
    obtain ⟨_, _, hblock⟩ := bind_eq_ok.mp hblock
    cases hblock
    rfl
  · intro element result helement
    obtain ⟨_, _, helement⟩ := bind_eq_ok.mp helement
    cases helement
    rfl

/-- A whole graph shows every row that the store has of it in its build. -/
theorem wholeGraph_rows {target : Target} {rows : List CfgGraph} {graph : CfgGraph}
    {output : CfgGraphResult} (hrows : service.coveredGraphs target = .ok rows)
    (hgraph : graph ∈ rows) (h : service.wholeGraph graph = .ok output) :
    ∃ projectId, service.projectId = .ok projectId ∧
      (output.blocks.map CfgBlockResult.blockId).Perm
        ((service.store.blocksOf projectId [graph.buildVariant] graph.id.val).map CfgBlock.id) ∧
      (output.elements.map CfgElementResult.elementId).Perm
        ((service.store.elementsOf projectId [graph.buildVariant] graph.id.val).map
          CfgElement.id) ∧
      (output.edges.map CfgEdgeResult.edgeId).Perm
        ((service.store.edgesOf projectId [graph.buildVariant] graph.id.val).map CfgEdge.id) := by
  obtain ⟨projectId, hproject, h⟩ := bind_eq_ok.mp h
  obtain ⟨scope, hscope, h⟩ := bind_eq_ok.mp h
  rw [graphScope_variants hrows hgraph hscope] at h
  obtain ⟨-, hblocks, helements, hedges⟩ := graphResult_eq_ok h
  rw [hblocks, helements, hedges]
  exact ⟨projectId, hproject, (sortBy_perm _ _).map _,
    (service.store.elementRows_perm _ _ _).map _, (service.store.edgeRows_perm _ _ _).map _⟩

/-- One turn shows the first rows of every section, and says whether there are more. -/
theorem serveGraph_eq_ok {graph : CfgGraph} {left : CfgBudget}
    {served : Option (Served CfgGraphResult CfgBudget)} (hleft : left.spent = false)
    (h : service.serveGraph graph left = .ok served) :
    ∃ projectId scope turn, service.projectId = .ok projectId ∧ graphScope graph = .ok scope ∧
      served = some turn ∧ turn.skipped = false ∧ ∃ blocks elements edges,
        blocks = service.store.blockRows projectId scope.variants graph.id.val ∧
        elements = service.store.elementRows projectId scope.variants graph.id.val ∧
        edges = service.store.edgeRows projectId scope.variants graph.id.val ∧
        (turn.cut = false → blocks.take left.blocks = blocks ∧
          elements.take left.elements = elements ∧ edges.take left.edges = edges) ∧
        service.graphResult graph (!turn.cut) (blocks.take left.blocks)
          (elements.take left.elements) (edges.take left.edges) = .ok turn.output ∧
        turn.left = ⟨left.blocks - (blocks.take left.blocks).length,
          left.elements - (elements.take left.elements).length,
          left.edges - (edges.take left.edges).length⟩ := by
  obtain ⟨hblocksLeft, helementsLeft, hedgesLeft⟩ := CfgBudget.spent_eq_false.mp hleft
  obtain ⟨scope, hscope, h⟩ := bind_eq_ok.mp h
  obtain ⟨blocks, hblocks, h⟩ := bind_eq_ok.mp h
  obtain ⟨elements, helements, h⟩ := bind_eq_ok.mp h
  obtain ⟨edges, hedges, h⟩ := bind_eq_ok.mp h
  rw [mapError_eq_ok] at hblocks helements hedges
  obtain ⟨projectId, hproject, -⟩ := service.store.boundedRows_eq_ok hblocks
  have hblocks := service.store.boundedRows_of_left hblocksLeft hproject hblocks
  have helements := service.store.boundedRows_of_left helementsLeft hproject helements
  have hedges := service.store.boundedRows_of_left hedgesLeft hproject hedges
  subst hblocks helements hedges
  obtain ⟨output, houtput, h⟩ := bind_eq_ok.mp h
  cases h
  simp only [take_pageOf] at houtput ⊢
  refine ⟨projectId, scope, _, projectId_eq_ok.mpr hproject, hscope, rfl, rfl, _, _, _, rfl, rfl,
    rfl, ?_, ?_, by simp [SymbolStore.scopeNames]⟩
  · intro hcut
    simp only [Bool.or_eq_false_iff] at hcut
    exact ⟨take_of_not_truncated hcut.1.1, take_of_not_truncated hcut.1.2,
      take_of_not_truncated hcut.2⟩
  · simpa [SymbolStore.scopeNames] using houtput

/-- The sections that a graph's budget is spent on. -/
inductive CfgSection where
  | blocks
  | elements
  | edges

def CfgSection.amount (left : CfgBudget) : CfgSection → Nat
  | blocks => left.blocks
  | elements => left.elements
  | edges => left.edges

def CfgSection.cost (graph : CfgGraphResult) : CfgSection → Nat
  | blocks => graph.blocks.length
  | elements => graph.elements.length
  | edges => graph.edges.length

theorem serveGraph_whole {graph : CfgGraph} {left : CfgBudget}
    {served : Served CfgGraphResult CfgBudget} (hleft : left.spent = false)
    (h : service.serveGraph graph left = .ok (some served)) (hcut : served.cut = false) :
    service.wholeGraph graph = .ok served.output := by
  obtain ⟨projectId, scope, turn, hproject, hscope, hserved, -, blocks, elements, edges, rfl, rfl,
    rfl, hshown, houtput, -⟩ := serveGraph_eq_ok hleft h
  cases hserved
  obtain ⟨hblocks, helements, hedges⟩ := hshown hcut
  rw [hblocks, helements, hedges, hcut] at houtput
  simp only [wholeGraph, hproject, hscope, bind, Except.bind]
  exact houtput

theorem serveGraph_pays : Pays service.serveGraph CfgBudget.spent
    (fun graph => some <$> service.wholeGraph graph) (fun i left => CfgSection.amount left i)
    (fun i graph => CfgSection.cost graph i) where
  paid := by
    intro graph left served hleft h i
    obtain ⟨_, _, turn, _, _, hserved, -, blocks, elements, edges, _, _, _, _, houtput, hturn⟩ :=
      serveGraph_eq_ok hleft h
    cases hserved
    obtain ⟨-, hblocks, helements, hedges⟩ := graphResult_eq_ok houtput
    have hblocks := congrArg List.length hblocks
    have helements := congrArg List.length helements
    have hedges := congrArg List.length hedges
    simp only [List.length_map] at hblocks helements hedges
    rw [hturn]
    cases i <;> simp [CfgSection.amount, CfgSection.cost, *]
  exhausted := by
    intro graph left served hleft h hskipped
    obtain ⟨_, _, turn, _, _, hserved, hturn, _⟩ := serveGraph_eq_ok hleft h
    cases hserved
    simp [hturn] at hskipped
  passed := by
    intro graph left hleft h
    obtain ⟨_, _, turn, _, _, hserved, _⟩ := serveGraph_eq_ok hleft h
    cases hserved
  shown := by
    intro graph left served hleft h hcut _
    simp [serveGraph_whole hleft h hcut, Functor.map, Except.map]

theorem controlFlow_exact (request : CfgRequest) {result : ControlFlowResult}
    (h : service.controlFlow request = .ok result) : service.ControlFlowExact request result := by
  obtain ⟨target, htarget, h⟩ := bind_eq_ok.mp h
  split at h
  · cases h
    exact ⟨by simp, by simp, by simp, by simp, by simp⟩
  · obtain ⟨graphs, hgraphs, h⟩ := bind_eq_ok.mp h
    obtain ⟨⟨rendered, truncated⟩, hrun, h⟩ := bind_eq_ok.mp h
    cases h
    obtain ⟨rows, hrows, rfl⟩ := graphPage_eq (mapError_eq_ok.mp hgraphs)
    have hspent : (CfgBudget.mk request.maxBlocks request.maxElements request.maxEdges).spent =
        false := CfgBudget.spent_eq_false.mpr
      ⟨request.blockRange.1, request.elementRange.1, request.edgeRange.1⟩
    obtain ⟨shown, hshown, hcost, hmade, hwhole⟩ :=
      budgetedRun_spec serveGraph_pays hspent (by simp) hrun
    rw [List.nil_append] at hshown
    subst hshown
    refine ⟨hcost .blocks, hcost .elements, hcost .edges, ?_, ?_⟩
    · intro graph hgraph hcomplete
      obtain ⟨row, hrow, left, served, hleft, hserved, rfl⟩ := hmade graph hgraph
      refine ⟨target, rows, htarget, hrows, row, List.mem_of_mem_take hrow, ?_⟩
      obtain ⟨_, _, turn, _, _, hturn, -, _, _, _, _, _, _, _, houtput, _⟩ :=
        serveGraph_eq_ok hleft hserved
      cases hturn
      apply serveGraph_whole hleft hserved
      simpa [hcomplete] using (graphResult_eq_ok houtput).1
    · intro _ htruncated
      obtain ⟨hpage, outputs, houtputs, hshown⟩ := hwhole htruncated
      refine ⟨target, rows, htarget, hrows, ?_⟩
      have hall : (SummaryStore.pageOf request.maxGraphs rows).items = rows :=
        take_of_not_truncated hpage
      rw [hshown, ← hall]
      exact mapM_some_ok houtputs

/-! ## Data flow -/

theorem FlowBudget.spent_eq_false {left : FlowBudget} :
    left.spent = false ↔ 0 < left.locations ∧ 0 < left.accesses ∧ 0 < left.evidence := by
  simp only [spent, decide_eq_false_iff_not]
  omega

theorem analysisResult_eq_ok {coverage : List CoverageEntry} {graph : CfgGraph}
    {analysis : DataFlowAnalysis} {summary : Option FunctionSummary} {sections : AnalysisSections}
    {output : DataFlowAnalysisResult}
    (h : service.analysisResult coverage graph analysis summary sections = .ok output) :
    output.analysisId = analysis.id ∧
      output.locations.map MemoryLocationResult.locationId =
        sections.locations.map MemoryLocation.id ∧
      output.accesses.map DataAccessResult.accessId = sections.accesses.map DataAccess.id ∧
      output.evidence.map FlowEvidenceResult.evidenceId =
        sections.evidence.map DataFlowEvidence.id ∧
      output.effects.map SummaryEffectResult.effectId = sections.effects.map SummaryEffect.id ∧
      output.returnOrigins.map SummaryReturnOriginResult.originId =
        sections.returnOrigins.map SummaryReturnOrigin.id ∧
      output.interprocedural.map InterproceduralFlowResult.flowId =
        sections.interprocedural.map InterproceduralFlow.id := by
  obtain ⟨accesses, haccesses, h⟩ := bind_eq_ok.mp h
  obtain ⟨evidence, hevidence, h⟩ := bind_eq_ok.mp h
  cases h
  refine ⟨rfl, by simp [locationResult], map_of_mapM ?_ haccesses, map_of_mapM ?_ hevidence,
    by simp [effectResult], by simp [originResult], by simp [flowResult]⟩
  · intro access result haccess
    obtain ⟨_, _, haccess⟩ := bind_eq_ok.mp haccess
    cases haccess
    rfl
  · intro item result hitem
    obtain ⟨_, _, hitem⟩ := bind_eq_ok.mp hitem
    cases hitem
    rfl

theorem length_analysisResult {coverage : List CoverageEntry} {graph : CfgGraph}
    {analysis : DataFlowAnalysis} {summary : Option FunctionSummary} {sections : AnalysisSections}
    {output : DataFlowAnalysisResult}
    (h : service.analysisResult coverage graph analysis summary sections = .ok output) :
    output.locations.length = sections.locations.length ∧
      output.accesses.length = sections.accesses.length ∧
        evidenceCount output = sections.evidence.length + sections.effects.length +
          sections.returnOrigins.length + sections.interprocedural.length := by
  obtain ⟨-, hlocations, haccesses, hevidence, heffects, horigins, hflows⟩ :=
    analysisResult_eq_ok h
  have hlocations := congrArg List.length hlocations
  have haccesses := congrArg List.length haccesses
  have hevidence := congrArg List.length hevidence
  have heffects := congrArg List.length heffects
  have horigins := congrArg List.length horigins
  have hflows := congrArg List.length hflows
  simp only [List.length_map] at hlocations haccesses hevidence heffects horigins hflows
  simp only [evidenceCount]
  omega

/-- A whole analysis shows every row that the store has of it in its build. -/
theorem wholeTurn_rows [Zlib] [PayloadLibrary] {target : Target} {rows : List CfgGraph}
    {graph : CfgGraph} {scope : BuildScope} {analysis : DataFlowAnalysis}
    {summary : Option FunctionSummary} {output : DataFlowAnalysisResult}
    (hrows : service.coveredGraphs target = .ok rows) (hgraph : graph ∈ rows)
    (hscope : graphScope graph = .ok scope)
    (h : service.wholeTurn target graph scope analysis summary = .ok output) :
    ∃ projectId, service.projectId = .ok projectId ∧
      (output.locations.map MemoryLocationResult.locationId).Perm
        ((service.store.locationsOf projectId [graph.buildVariant] analysis.id.val).map
          MemoryLocation.id) ∧
      (output.accesses.map DataAccessResult.accessId).Perm
        ((service.store.accessesOf projectId [graph.buildVariant] analysis.id.val).map
          DataAccess.id) ∧
      (output.evidence.map FlowEvidenceResult.evidenceId).Perm
        ((service.store.evidenceOf projectId [graph.buildVariant] analysis.id.val).map
          DataFlowEvidence.id) := by
  obtain ⟨projectId, hproject, h⟩ := bind_eq_ok.mp h
  obtain ⟨_, _, h⟩ := bind_eq_ok.mp h
  obtain ⟨_, _, h⟩ := bind_eq_ok.mp h
  obtain ⟨_, _, h⟩ := bind_eq_ok.mp h
  rw [graphScope_variants hrows hgraph hscope] at h
  obtain ⟨-, hlocations, haccesses, hevidence, -⟩ := analysisResult_eq_ok h
  rw [hlocations, haccesses, hevidence]
  exact ⟨projectId, hproject, (sortBy_perm _ _).map _,
    (service.store.accessRows_perm _ _ _).map _, (sortBy_perm _ _).map _⟩

/-- A section shows no more than is left, is skipped only when nothing is, and is whole when it
is neither skipped nor cut. -/
theorem sectionPage_eq_ok {α : Type}
    {page : String → Int → Except PageError (BoundedCfgResult α)}
    (facts : String → Except PageError (List α))
    (hpage : ∀ id (left : Nat) found, 0 < left → page id (max 1 left) = .ok found →
      ∃ items, facts id = .ok items ∧ found = SummaryStore.pageOf left items)
    {summary : Option FunctionSummary} {remaining : Nat} {shown : SectionPage α}
    (h : sectionPage page summary remaining = .ok shown) :
    shown.items.length ≤ remaining ∧ (shown.skipped = true → remaining = 0) ∧
      (shown.truncated = false → shown.skipped = false →
        wholeSection facts summary = .ok shown.items) := by
  cases summary with
  | none =>
      cases h
      simp [wholeSection]
  | some summary =>
      simp only [sectionPage] at h
      split at h
      · rename_i hremaining
        obtain ⟨found, hfound, h⟩ := bind_eq_ok.mp h
        cases h
        obtain ⟨items, hitems, rfl⟩ := hpage _ _ _ hremaining (mapError_eq_ok.mp hfound)
        refine ⟨by simp [SummaryStore.pageOf], by simp, ?_⟩
        intro htruncated _
        have hall : (SummaryStore.pageOf remaining items).items = items :=
          take_of_not_truncated htruncated
        rw [hall]
        exact mapError_eq_ok.mpr hitems
      · cases h
        refine ⟨by simp, ?_, by simp⟩
        intro _
        omega

section DataFlow

variable [Zlib] [PayloadLibrary]

omit [Zlib] [PayloadLibrary] in
theorem exists_of_page {α : Type} {all : Except PageError (List α)} {left : Nat}
    {found : BoundedCfgResult α} (hleft : 0 < left)
    (h : (if 1 ≤ max 1 (left : Int) ∧ max 1 (left : Int) ≤ maxCfgPageSize then
      all.map (SummaryStore.pageOf (max 1 (left : Int)).toNat)
      else .error (.store .valueError)) = .ok found) :
    ∃ items, all = .ok items ∧ found = SummaryStore.pageOf left items := by
  have hlimit : (max 1 (left : Int)).toNat = left := by omega
  rw [hlimit] at h
  split at h
  · cases hall : all with
    | error error => simp [hall, Except.map] at h
    | ok items =>
        simp only [hall, Except.map, Except.ok.injEq] at h
        exact ⟨items, rfl, h.symm⟩
  · cases h

/-- What one turn shows of an analysis, and what it leaves of the budget. -/
theorem analysisTurn_eq_ok {target : Target} {graph : CfgGraph} {scope : BuildScope}
    {analysis : DataFlowAnalysis} {summary : Option FunctionSummary} {left : FlowBudget}
    {turn : Served DataFlowAnalysisResult FlowBudget} (hleft : left.spent = false)
    (h : service.analysisTurn target graph scope analysis summary left = .ok turn) :
    turn.output.locations.length + turn.left.locations ≤ left.locations ∧
      turn.output.accesses.length + turn.left.accesses ≤ left.accesses ∧
      evidenceCount turn.output + turn.left.evidence ≤ left.evidence ∧
      (turn.skipped = true → turn.left.evidence = 0) ∧
      (turn.cut = false → turn.skipped = false →
        service.wholeTurn target graph scope analysis summary = .ok turn.output) := by
  obtain ⟨hlocationsLeft, haccessesLeft, hevidenceLeft⟩ := FlowBudget.spent_eq_false.mp hleft
  obtain ⟨locations, hlocations, h⟩ := bind_eq_ok.mp h
  obtain ⟨accesses, haccesses, h⟩ := bind_eq_ok.mp h
  obtain ⟨evidence, hevidence, h⟩ := bind_eq_ok.mp h
  rw [mapError_eq_ok] at hlocations haccesses hevidence
  obtain ⟨projectId, hproject, -⟩ := service.store.boundedRows_eq_ok hlocations
  have hlocations := service.store.boundedRows_of_left hlocationsLeft hproject hlocations
  have haccesses := service.store.boundedRows_of_left haccessesLeft hproject haccesses
  have hevidence := service.store.boundedRows_of_left hevidenceLeft hproject hevidence
  subst hlocations haccesses hevidence
  obtain ⟨effects, heffects, h⟩ := bind_eq_ok.mp h
  obtain ⟨origins, horigins, h⟩ := bind_eq_ok.mp h
  obtain ⟨flows, hflows, h⟩ := bind_eq_ok.mp h
  obtain ⟨output, houtput, h⟩ := bind_eq_ok.mp h
  cases h
  have heffects := sectionPage_eq_ok
    (service.store.allEffects · (some service.projectRoot) (some scope))
    (by
      intro id left found hleft hfound
      rw [(service.store.summaryFacts_page id _ _ _).1] at hfound
      exact exists_of_page hleft hfound) heffects
  have horigins := sectionPage_eq_ok
    (service.store.allReturnOrigins · (some service.projectRoot) (some scope))
    (by
      intro id left found hleft hfound
      rw [(service.store.summaryFacts_page id _ _ _).2] at hfound
      exact exists_of_page hleft hfound) horigins
  have hflows := sectionPage_eq_ok
    (fun id => .ok (service.store.flowRows projectId scope.variants id target.translationUnitIds))
    (by
      intro id left found hleft hfound
      exact ⟨_, rfl, service.store.boundedRows_of_left hleft hproject hfound⟩) hflows
  simp only [take_pageOf, SymbolStore.scopeNames, Option.getD_some] at houtput heffects ⊢
  simp only [take_pageOf, SymbolStore.scopeNames, Option.getD_some] at horigins hflows
  obtain ⟨hlocations, haccesses, hevidence⟩ := length_analysisResult houtput
  simp only [List.length_take] at hlocations haccesses hevidence heffects horigins hflows ⊢
  refine ⟨by omega, by omega, by omega, ?_, ?_⟩
  · intro hskipped
    simp only [Bool.or_eq_true] at hskipped
    rcases hskipped with (hskipped | hskipped) | hskipped
    · have := heffects.2.1 hskipped
      omega
    · have := horigins.2.1 hskipped
      omega
    · have := hflows.2.1 hskipped
      omega
  · intro hcut hskipped
    simp only [Bool.or_eq_false_iff] at hcut hskipped
    obtain ⟨⟨⟨⟨⟨hlocationsCut, haccessesCut⟩, hevidenceCut⟩, heffectsCut⟩, horiginsCut⟩, hflowsCut⟩ :=
      hcut
    rw [take_of_not_truncated hlocationsCut, take_of_not_truncated haccessesCut,
      take_of_not_truncated hevidenceCut] at houtput
    simp only [wholeTurn, projectId_eq_ok.mpr hproject, bind, Except.bind,
      heffects.2.2 heffectsCut hskipped.1.1, horigins.2.2 horiginsCut hskipped.1.2,
      hflows.2.2 hflowsCut hskipped.2]
    exact houtput

/-- A turn that passes a graph over, or shows an analysis of it. -/
theorem serveAnalysis_eq_ok {target : Target} {summaries : List FunctionSummary}
    {graph : CfgGraph} {left : FlowBudget}
    {served : Option (Served DataFlowAnalysisResult FlowBudget)}
    (h : service.serveAnalysis target summaries graph left = .ok served) :
    served = none ∧ service.wholeAnalysis target summaries graph = .ok none ∨
      ∃ scope analysis turn cut, served = some { turn with cut := cut || turn.cut } ∧
        service.analysisTurn target graph scope analysis (graphSummary summaries graph) left =
          .ok turn ∧
        ∀ output, service.wholeTurn target graph scope analysis (graphSummary summaries graph) =
            .ok output →
          service.wholeAnalysis target summaries graph = .ok (some output) := by
  obtain ⟨scope, hscope, h⟩ := bind_eq_ok.mp h
  obtain ⟨analyses, hanalyses, h⟩ := bind_eq_ok.mp h
  obtain ⟨projectId, hproject, rfl⟩ :=
    service.store.boundedRows_eq_ok (mapError_eq_ok.mp hanalyses)
  have hwhole : service.wholeAnalysis target summaries graph =
      match service.store.analysisRows projectId scope.variants graph.id.val with
      | [] => return none
      | analysis :: _ =>
          some <$> service.wholeTurn target graph scope analysis (graphSummary summaries graph) := by
    simp [wholeAnalysis, projectId_eq_ok.mpr hproject, hscope, bind, Except.bind]
  have hitems : (SummaryStore.pageOf (1 : Int).toNat (service.store.analysisRows projectId
      (service.store.scopeNames (some scope)) graph.id.val)).items =
        (service.store.analysisRows projectId scope.variants graph.id.val).take 1 := rfl
  cases hrows : service.store.analysisRows projectId scope.variants graph.id.val with
  | nil =>
      simp only [hitems, hrows, List.take_nil] at h
      cases h
      exact .inl ⟨rfl, by simp [hwhole, hrows, pure, Except.pure]⟩
  | cons analysis rest =>
      simp only [hitems, hrows, List.take_succ_cons] at h
      obtain ⟨turn, hturn, h⟩ := bind_eq_ok.mp h
      cases h
      refine .inr ⟨scope, analysis, turn, _, rfl, hturn, ?_⟩
      intro output houtput
      simp [hwhole, hrows, houtput, Functor.map, Except.map]

/-- The counters that an analysis is paid from. -/
inductive FlowSection where
  | locations
  | accesses
  | evidence

def FlowSection.amount (left : FlowBudget) : FlowSection → Nat
  | locations => left.locations
  | accesses => left.accesses
  | evidence => left.evidence

def FlowSection.cost (analysis : DataFlowAnalysisResult) : FlowSection → Nat
  | locations => analysis.locations.length
  | accesses => analysis.accesses.length
  | evidence => evidenceCount analysis

theorem serveAnalysis_pays (target : Target) (summaries : List FunctionSummary) :
    Pays (service.serveAnalysis target summaries) FlowBudget.spent
      (service.wholeAnalysis target summaries) (fun i left => FlowSection.amount left i)
      (fun i analysis => FlowSection.cost analysis i) where
  paid := by
    intro graph left served hleft h i
    rcases serveAnalysis_eq_ok h with ⟨hnone, -⟩ | ⟨scope, analysis, turn, cut, hserved, hturn, -⟩
    · cases hnone
    · cases hserved
      obtain ⟨hlocations, haccesses, hevidence, -⟩ := analysisTurn_eq_ok hleft hturn
      cases i
      · exact hlocations
      · exact haccesses
      · exact hevidence
  exhausted := by
    intro graph left served hleft h hskipped
    rcases serveAnalysis_eq_ok h with ⟨hnone, -⟩ | ⟨scope, analysis, turn, cut, hserved, hturn, -⟩
    · cases hnone
    · cases hserved
      have hevidence := (analysisTurn_eq_ok hleft hturn).2.2.2.1 hskipped
      simp [FlowBudget.spent, hevidence]
  passed := by
    intro graph left _ h
    rcases serveAnalysis_eq_ok h with ⟨-, hwhole⟩ | ⟨scope, analysis, turn, cut, hserved, -⟩
    · exact hwhole
    · cases hserved
  shown := by
    intro graph left served hleft h hcut hskipped
    rcases serveAnalysis_eq_ok h with ⟨hnone, -⟩ |
      ⟨scope, analysis, turn, cut, hserved, hturn, hwhole⟩
    · cases hnone
    · cases hserved
      simp only [Bool.or_eq_false_iff] at hcut
      exact hwhole _ ((analysisTurn_eq_ok hleft hturn).2.2.2.2 hcut.2 hskipped)

theorem dataFlow_exact (request : FlowRequest) {result : DataFlowResult}
    (h : service.dataFlow request = .ok result) : service.DataFlowExact request result := by
  obtain ⟨target, htarget, h⟩ := bind_eq_ok.mp h
  split at h
  · cases h
    exact ⟨by simp, by simp, by simp, by simp⟩
  · obtain ⟨graphs, hgraphs, h⟩ := bind_eq_ok.mp h
    obtain ⟨summaries, hsummaries, h⟩ := bind_eq_ok.mp h
    obtain ⟨⟨rendered, truncated⟩, hrun, h⟩ := bind_eq_ok.mp h
    cases h
    obtain ⟨rows, hrows, rfl⟩ := graphPage_eq (mapError_eq_ok.mp hgraphs)
    obtain ⟨summaryRows, hsummaryRows, rfl⟩ := summaryPage_eq (mapError_eq_ok.mp hsummaries)
    have hspent : (FlowBudget.mk request.maxLocations request.maxAccesses
        request.maxEvidence).spent = false := FlowBudget.spent_eq_false.mpr
      ⟨request.locationRange.1, request.accessRange.1, request.evidenceRange.1⟩
    obtain ⟨shown, hshown, hcost, -, hwhole⟩ :=
      budgetedRun_spec (serveAnalysis_pays target _) hspent (by simp) hrun
    rw [List.nil_append] at hshown
    subst hshown
    refine ⟨hcost .locations, hcost .accesses, hcost .evidence, ?_⟩
    intro _ htruncated
    obtain ⟨hpages, outputs, houtputs, hshown⟩ := hwhole htruncated
    obtain ⟨hgraphs, hsummaries⟩ := Bool.or_eq_false_iff.mp hpages
    have hall : (SummaryStore.pageOf request.maxAnalyses rows).items = rows :=
      take_of_not_truncated hgraphs
    have hallSummaries : (SummaryStore.pageOf request.maxAnalyses summaryRows).items =
        summaryRows := take_of_not_truncated hsummaries
    rw [hall, hallSummaries] at houtputs
    exact ⟨target, rows, summaryRows, outputs, htarget, hrows, hsummaryRows, houtputs, hshown⟩

end DataFlow

/-! ## Both answers -/

end AnalysisQueryService

/-! ### A function with one graph -/

section OneGraph

/-- A unit that defines `x`; without deep facts it has been indexed for navigation alone. -/
def definingUnit (id : String) (deep : Bool) : AnalyzedUnitRow where
  projectId := 1
  id
  buildVariant := "default"
  analysisBackend := "native"
  indexProfile := if deep then .full else .navigation
  navigationFactsComplete := true
  cfgFactsComplete := deep
  dataFlowFactsComplete := deep
  summaryFactsComplete := deep

/-- The graph `g` of `x` in the unit `a`. -/
def graphOfX : CfgGraph where
  id := ⟨"g", by decide +kernel⟩
  functionSymbolId := ownText.id
  entryBlockId := ⟨"entry", by decide +kernel⟩
  normalExitBlockId := ⟨"exit", by decide +kernel⟩
  translationUnitId := "a"

/-- A service over an index that has one graph, of `x`, and no analysis of it. -/
def oneGraphService (units : List AnalyzedUnitRow) : AnalysisQueryService where
  store :=
    { projectRoot := some "/p"
      buildScope := .default
      projects := [⟨1, "/p"⟩]
      symbols := []
      variants := [ownVariant "v" "a" true]
      variantKeys := List.nodup_singleton _
      effects := []
      origins := []
      summaries := []
      payloads := []
      effectKeys := by simp
      originKeys := by simp
      buildVariants := [⟨1, ⟨defaultBuildVariant, BuildScope.default.named _ (by simp
        [BuildScope.default])⟩, []⟩]
      buildVariantKeys := List.nodup_singleton _
      memberships := units.map fun unit => ⟨1, unit.id, "x", true⟩
      units
      materializations := []
      cachedUnits := []
      materializedUnits := []
      cfgGraphs := [⟨1, graphOfX⟩]
      cfgBlocks := []
      cfgElements := []
      cfgEdges := []
      dataFlowAnalyses := []
      memoryLocations := []
      dataAccesses := []
      dataFlowEvidence := []
      functionSummaries := []
      interproceduralFlows := []
      summaryRows := rfl
      elementBlocks := by simp
      edgeBlocks := by simp
      accessBlocks := by simp }
  projectRoot := "/p"
  allowedScope := .default
  boundedDirectory := fun _ => true
  displayPath := some

def requestX : RequestId := ⟨"x", by decide +kernel⟩

def cfgRequestX : CfgRequest where
  functionSymbolId := requestX
  buildRange := by simp
  graphRange := by decide
  blockRange := by decide
  elementRange := by decide
  edgeRange := by decide

def flowRequestX : FlowRequest where
  functionSymbolId := requestX
  buildRange := by simp
  analysisRange := by decide
  locationRange := by decide
  accessRange := by decide
  evidenceRange := by decide

/-- The identifiers of the covered graphs of `x`. -/
def coveredX (service : AnalysisQueryService) : Except QueryError (List String) := do
  let target ← service.target requestX none none
  let graphs ← service.coveredGraphs target
  return graphs.map fun graph => graph.id.val

end OneGraph

end CppContextEngine.Server
