import CppContextEngine.Ingestion.NavigationContainment
import CppContextEngine.Ingestion.SummaryContainment
import CppContextEngine.Models.BatchReferences

/-!
# Closed batches

A batch that `build` returns is closed: no stored reference of it dangles, and
none crosses the graph, the analysis or the summary that the row belongs to.
-/

namespace CppContextEngine.Ingestion

open CppContextEngine.Foundation CppContextEngine.Models

/-! ## From the tables to the rows -/

/-- What the tables hold is in the batch. -/
structure Resolves (tables : FactTables) (batch : IngestionBatch) : Prop where
  symbols : ∀ id, FiledId tables.keys id → batch.HasSymbol id.val
  callsites : ∀ id, FiledId tables.callsiteIds id → batch.HasCallsite id.val
  graphs : ∀ id function, Filed tables.cfgGraphs id function →
    batch.HasGraph function.val id.val
  blocks : ∀ id graph, Filed tables.cfgBlocks id graph → batch.HasBlock graph.val id.val
  elements : ∀ id graph, Filed tables.cfgElements id graph → batch.HasElement graph.val id.val
  analyses : ∀ id graph, Filed tables.dataFlowAnalyses id graph →
    batch.HasAnalysis graph.val id.val
  locations : ∀ id analysis, Filed tables.memoryLocations id analysis →
    batch.HasLocation analysis.val id.val
  accesses : ∀ id analysis, Filed tables.dataAccesses id analysis →
    batch.HasAccess analysis.val id.val

section Closing

variable {tables : FactTables} {batch : IngestionBatch}

theorem Resolves.controlFlowClosed (h : Resolves tables batch) {rows : CfgRows}
    (hcontained : FactContext.CfgContained tables rows) (hgraphs : batch.cfgGraphs = rows.graphs)
    (hblocks : batch.cfgBlocks = rows.blocks) (helements : batch.cfgElements = rows.elements)
    (hedges : batch.cfgEdges = rows.edges) : batch.ControlFlowClosed where
  graphs := by
    intro row hrow
    obtain ⟨hfunction, hentry, hnormal, hexceptional⟩ := hcontained.graphs row (hgraphs ▸ hrow)
    exact ⟨h.symbols _ hfunction, h.blocks _ _ hentry, h.blocks _ _ hnormal,
      fun id hid => h.blocks _ _ (hexceptional id hid)⟩
  blocks := by
    intro row hrow
    obtain ⟨function, hgraph⟩ := hcontained.blocks row (hblocks ▸ hrow)
    exact ⟨function.val, h.graphs _ _ hgraph⟩
  elements := by
    intro row hrow
    obtain ⟨⟨function, hgraph⟩, hblock⟩ := hcontained.elements row (helements ▸ hrow)
    exact ⟨⟨function.val, h.graphs _ _ hgraph⟩, h.blocks _ _ hblock⟩
  edges := by
    intro row hrow
    obtain ⟨⟨function, hgraph⟩, hsource, htarget⟩ := hcontained.edges row (hedges ▸ hrow)
    exact ⟨⟨function.val, h.graphs _ _ hgraph⟩, h.blocks _ _ hsource, h.blocks _ _ htarget⟩

theorem Resolves.hasEnds (h : Resolves tables batch) {analysis : Identifier} {pair : EvidencePair}
    (hends : FactContext.FiledEnds tables analysis pair) : batch.HasEnds analysis.val pair := by
  cases pair with
  | accesses source target => exact ⟨h.accesses _ _ hends.1, h.accesses _ _ hends.2⟩
  | locations source target => exact ⟨h.locations _ _ hends.1, h.locations _ _ hends.2⟩

theorem Resolves.dataFlowClosed (h : Resolves tables batch) {rows : DataFlowRows}
    (hcontained : FactContext.DataFlowContained tables rows)
    (hanalyses : batch.dataFlowAnalyses = rows.analyses)
    (hlocations : batch.memoryLocations = rows.locations)
    (haccesses : batch.dataAccesses = rows.accesses)
    (hevidence : batch.dataFlowEvidence = rows.evidence) : batch.DataFlowClosed where
  analyses := by
    intro row hrow
    obtain ⟨function, hgraph⟩ := hcontained.analyses row (hanalyses ▸ hrow)
    exact ⟨function.val, h.graphs _ _ hgraph⟩
  locations := by
    intro row hrow
    obtain ⟨hanalysis, hdeclaration, hbase⟩ := hcontained.locations row (hlocations ▸ hrow)
    exact ⟨h.analyses _ _ hanalysis, fun id hid => h.symbols _ (hdeclaration id hid),
      fun id hid => h.locations _ _ (hbase id hid)⟩
  accesses := by
    intro row hrow
    obtain ⟨hanalysis, ⟨hlocation, hblock, helement⟩, hpointees⟩ :=
      hcontained.accesses row (haccesses ▸ hrow)
    refine ⟨h.analyses _ _ hanalysis, h.locations _ _ hlocation, h.blocks _ _ hblock,
      fun id hid => h.elements _ _ (helement id hid), ?_⟩
    intro id hid
    obtain ⟨symbol, hsymbol, hstrip⟩ := hpointees id hid
    exact ⟨symbol.val, h.symbols _ hsymbol, hstrip⟩
  evidence := by
    intro row hrow
    obtain ⟨hanalysis, hends⟩ := hcontained.evidence row (hevidence ▸ hrow)
    exact ⟨h.analyses _ _ hanalysis, h.hasEnds hends⟩

/-- A summary that is entered is in the batch, with what the row names. -/
theorem Resolves.hasSummary (h : Resolves tables batch) {rows : SummaryRows}
    (hcontained : FactContext.SummariesContained tables rows)
    (hsummaries : batch.functionSummaries = rows.summaries) {id : String} {parameter : Option Nat}
    {location access : Option String} (hholds : FiledSummary tables id parameter location access) :
    batch.HasSummary id parameter location access := by
  obtain ⟨key, entry, hget, rfl, hparameter, hlocation, haccess⟩ := hholds
  obtain ⟨row, hrow, hid, hanalysis, hcount⟩ := hcontained.summariesShown key entry hget
  refine ⟨row, hsummaries ▸ hrow, hid, ?_, ?_, ?_⟩
  · intro index hindex
    rw [hcount]
    exact hparameter index hindex
  · intro other hother
    obtain ⟨found, rfl, hfound⟩ := hlocation other hother
    rw [hanalysis]
    exact h.locations _ _ hfound
  · intro other hother
    obtain ⟨found, rfl, hfound⟩ := haccess other hother
    rw [hanalysis]
    exact h.accesses _ _ hfound

theorem Resolves.summariesClosed (h : Resolves tables batch) {rows : SummaryRows}
    (hcontained : FactContext.SummariesContained tables rows)
    (hsummaries : batch.functionSummaries = rows.summaries)
    (heffects : batch.summaryEffects = rows.effects)
    (horigins : batch.summaryReturnOrigins = rows.origins)
    (harguments : batch.callArgumentBindings = rows.arguments)
    (hresults : batch.callResultBindings = rows.results) : batch.SummariesClosed where
  summaries := by
    intro row hrow
    obtain ⟨⟨functionId, graphId, analysisId, hfunctionVal, hgraphVal, hanalysisVal, hfunction,
      hgraph, hanalysis, hlocations⟩, hlength⟩ := hcontained.summaries row (hsummaries ▸ hrow)
    rw [← hfunctionVal, ← hgraphVal, ← hanalysisVal]
    refine ⟨h.symbols _ hfunction, h.graphs _ _ hgraph, h.analyses _ _ hanalysis, hlength, ?_⟩
    intro id hid
    obtain ⟨location, rfl, hlocation⟩ := hlocations id hid
    exact h.locations _ _ hlocation
  effects := by
    intro row hrow
    exact h.hasSummary hcontained hsummaries (hcontained.effects row (heffects ▸ hrow))
  origins := by
    intro row hrow
    obtain ⟨hsummary, hsites⟩ := hcontained.origins row (horigins ▸ hrow)
    refine ⟨h.hasSummary hcontained hsummaries hsummary, ?_⟩
    intro id hid
    obtain ⟨site, hsite, rfl⟩ := hsites id hid
    exact h.callsites site hsite
  arguments := by
    intro row hrow
    obtain ⟨hsummary, site, hsite, hval⟩ := hcontained.arguments row (harguments ▸ hrow)
    exact ⟨h.hasSummary hcontained hsummaries hsummary, hval ▸ h.callsites site hsite⟩
  results := by
    intro row hrow
    obtain ⟨hsummary, site, hsite, hval⟩ := hcontained.results row (hresults ▸ hrow)
    exact ⟨h.hasSummary hcontained hsummaries hsummary, hval ▸ h.callsites site hsite⟩

end Closing

/-! ## A function that calls itself -/

/-- SHA-256 of what `int f(int x) { return f(x); }` digests, by the sum of its bytes. -/
def selfCallDigests : List (Nat × String) := [
    (471, "3dbed0b254e10b8eddd29c520b0fbf5fa4c88b4021e972fca606320e323408fe"),
    (3833, "b8d42c10ba02f5ac51cfa7074f9905d8f49b9e527dbb73dedcefe120a84a3b55"),
    (1004, "a94e3e82c478adc85275282a08787b798559328f6c3cb2c41271f8cddf44b27d"),
    (3421, "34e2e06e19ba67defb6191ccbe24a83fbfac5b3c5192cc89a349db0f8ca7ee3b"),
    (0, "6e340b9cffb37a989ca544e6bb780a2c78901d3fb33738768511a30617afa01d"),
    (5576, "b5654ee2436e3858b71b5deb8b2060044d8d1022ba84b3831c55fe53c0cf42f6"),
    (8705, "f846ec7144aa3f20256106f979b372e23e555cf0ed7216dec3c504d7964a0bf9"),
    (3520, "2c138558463c7cf0197fed915952e96eaa23b64baedde92026b77c9f8a09818d"),
    (2570, "bcffbb24eb707053ba3943210abf50c12d1e3df805324fc9d1a2a919aaabcc0d"),
    (2571, "7eabeebe9153a50968e1f65d90c5c72f61e055386f246aefd56ffecfc84a17d9"),
    (5936, "5fd82c245b27abc4a92a0c06a4a0930b84ec3b0bcd2aa7ac650aa1e855750492"),
    (10860, "faf1107d777c69bf857ea086d151199ac3e8541541c87d2eefc8e0a64afa1bb4"),
    (2522, "caba23ecf7ec186f81c1decde1be06cf437f97f89c0fb6230c28a3fb78b3edcf"),
    (3775, "fa9b2a649ea475c85c2a9205072bb8a0d1700cab1d50094232460f57c2feb59d"),
    (4329, "01bd8b267e118bdf9a39c437cbf2ff340b02e7dbd2c60361166a38875122bbf3"),
    (4330, "86feb83bc00910cbebe4b7ff4f85a9cd6c3a97bb6674b34cb17c0568598272f7"),
    (4490, "c6ad93cd62f16b5e12d0a058c5fe34e6f82b9d1729be31018ed049c48f61605b"),
    (3479, "29a714c52fe6a1993da1b10f043ec32db4962dfa7f38d1744092cf857076a160"),
    (6236, "2996d25d5045327c15d778189ea572aa0f04caa4632ad45e5944e86fc998ede7")]

@[reducible] def selfCallLibrary : NativeLibrary where
  hexdigest data :=
    ((selfCallDigests.find? fun entry => entry.1 == (data.map UInt8.toNat).sum).map Prod.snd).getD ""
  str _ := ""

def selfCallContext : FactContext where
  configurationId := "c"
  buildVariant := "default"
  sourcePath := "/f.cpp"
  profile := .full
  unitId := "u"
  analyzerIdentity := ""
  authorizedFile := some
  display _ := "f.cpp"
  lines _ := ["int f(int x) { return f(x); }"]
  fileHash _ := ""
  floatValue _ := none

/-- Columns of the first line. -/
def columns (start stop : Nat) : Json :=
  .object [("path", .text "/f.cpp"), ("start_line", .int 1), ("end_line", .int 1),
    ("start_column", .int start), ("end_column", .int stop)]

def factOf (kind : String) (fields : List (String × Json)) : Record :=
  Table.ofEntries (("fact", .text kind) :: fields)

def selfCallNavigation : List Record :=
  [factOf "file" [("key", .text "file:f.cpp"), ("path", .text "/f.cpp")],
    factOf "symbol" [("key", .text "usr:c:@F@f#I#"), ("qualified_name", .text "f"),
      ("kind", .text "function"), ("span", columns 1 30)],
    factOf "callsite_v1" [("key", .text "call"), ("owner_key", .text "usr:c:@F@f#I#"),
      ("dispatch_kind", .text "direct"), ("expansion_span", columns 23 27),
      ("target_set_complete", .bool true), ("static_target_key", .text "usr:c:@F@f#I#")],
    factOf "call_target_v1" [("callsite_key", .text "call"),
      ("target_key", .text "usr:c:@F@f#I#"), ("certainty", .text "certain"), ("confidence", .int 1),
      ("evidence_span", columns 23 27), ("derivation", .text "static_callee"),
      ("confidence_reason", .text "direct call")]]

def selfCallGraph : List Record :=
  [factOf "cfg_graph_v1" [("key", .text "graph"), ("function_key", .text "usr:c:@F@f#I#"),
      ("fact_schema_version", .int 1), ("clang_major", .int 18), ("build_options", .object []),
      ("entry_block_key", .text "block1"), ("normal_exit_block_key", .text "block0")],
    factOf "cfg_block_v1" [("key", .text "block0"), ("graph_key", .text "graph"), ("index", .int 0),
      ("role", .text "normal_exit"), ("reachable", .bool true)],
    factOf "cfg_block_v1" [("key", .text "block1"), ("graph_key", .text "graph"), ("index", .int 1),
      ("role", .text "entry"), ("reachable", .bool true)],
    factOf "cfg_element_v1" [("key", .text "element"), ("graph_key", .text "graph"),
      ("block_key", .text "block1"), ("index", .int 0), ("kind", .text "statement"),
      ("metadata", .object [])],
    factOf "cfg_edge_v1" [("graph_key", .text "graph"), ("source_block_key", .text "block1"),
      ("target_block_key", .text "block0"), ("successor_index", .int 0),
      ("kind", .text "fallthrough"), ("feasible", .bool true)]]

def accessOf (key kind : String) (sequence : Nat) : Record :=
  factOf "data_access_v1" [("key", .text key), ("analysis_key", .text "flow"),
    ("graph_key", .text "graph"), ("block_key", .text "block1"), ("location_key", .text "x"),
    ("cfg_element_key", .text "element"), ("kind", .text kind), ("sequence", .int sequence),
    ("pointee_keys", .list [.text "usr:c:@F@f#I#"]), ("points_to_complete", .bool true)]

def selfCallFlow : List Record :=
  [factOf "data_flow_analysis_v1" [("key", .text "flow"), ("graph_key", .text "graph"),
      ("complete", .bool true), ("incomplete_reasons", .list []), ("iteration_count", .int 2),
      ("limits", .object [("max_iterations", .int 64), ("max_alias_targets", .int 8),
        ("max_access_path_depth", .int 4), ("max_locations", .int 512)])],
    factOf "memory_location_v1" [("key", .text "x"), ("analysis_key", .text "flow"),
      ("graph_key", .text "graph"), ("kind", .text "parameter"), ("name", .text "x"),
      ("declaration_key", .text "usr:c:@F@f#I#"), ("is_volatile", .bool false),
      ("is_atomic", .bool false)],
    accessOf "access0" "parameter_definition" 0,
    accessOf "access1" "read" 1,
    factOf "data_flow_evidence_v1" [("key", .text "evidence"), ("analysis_key", .text "flow"),
      ("graph_key", .text "graph"), ("relation", .text "reaching_definition"),
      ("source_access_key", .text "access0"), ("target_access_key", .text "access1"),
      ("certainty", .text "certain"), ("reason", .text "sole definition")]]

def selfCallSummary : List Record :=
  [factOf "function_summary_v1" [("key", .text "summary"), ("analysis_key", .text "flow"),
      ("graph_key", .text "graph"), ("function_key", .text "usr:c:@F@f#I#"),
      ("parameter_modes", .list [.text "value"]),
      ("parameter_location_keys", .list [.text "x"]), ("local_incomplete_reasons", .list []),
      ("local_complete", .bool true)],
    factOf "call_argument_binding_v1" [("summary_key", .text "summary"),
      ("callsite_key", .text "call"), ("argument_index", .int 0), ("parameter_index", .int 0),
      ("location_key", .text "x"), ("location_kind", .text "parameter"), ("access_path", .list []),
      ("writeback_candidate", .bool false), ("complete", .bool true)]]

def selfCallFacts : List Record :=
  selfCallNavigation ++ selfCallGraph ++ selfCallFlow ++ selfCallSummary

theorem selfCall_built : ∃ batch,
    @FactContext.build selfCallLibrary selfCallContext selfCallFacts = .ok batch ∧
      batch.callTargets.length = 1 ∧ batch.cfgEdges.length = 1 ∧
        batch.dataFlowEvidence.length = 1 ∧ batch.callArgumentBindings.length = 1 := by
  have hrows : (@FactContext.build selfCallLibrary selfCallContext selfCallFacts).toOption.map
      (fun batch => (batch.callTargets.length, batch.cfgEdges.length,
        batch.dataFlowEvidence.length, batch.callArgumentBindings.length)) = some (1, 1, 1, 1) := by
    decide +kernel
  cases hbuild : @FactContext.build selfCallLibrary selfCallContext selfCallFacts with
  | error raised =>
      rw [hbuild] at hrows
      cases hrows
  | ok batch =>
      rw [hbuild] at hrows
      simp only [Except.toOption, Option.map_some, Option.some.injEq, Prod.mk.injEq] at hrows
      exact ⟨batch, rfl, hrows⟩

/-! ## The builder -/

namespace FactContext

variable {ctx : FactContext} {facts : List Record} {batch : IngestionBatch}

/-- The last tables know what the passes have entered. -/
theorem deepFacts_contained [NativeLibrary] {called : FactTables} {deep : DeepRows}
    (h : ctx.deepFacts facts called = .ok deep) :
    ∃ final : FactTables, (final.keys = called.keys ∧ final.callsiteIds = called.callsiteIds) ∧
      CfgContained final deep.cfg ∧ DataFlowContained final deep.dataFlow ∧
        SummariesContained final deep.summaries := by
  simp only [deepFacts, bind_eq_ok] at h
  obtain ⟨identities, -, ⟨cfgTables, cfg⟩, hcfg, ⟨flowTables, flow⟩, hflow, ⟨final, summaries⟩,
    hsummaries, hok⟩ := h
  cases hok
  obtain ⟨⟨graphs, blocks, elements, hcfgFrame⟩, hcfg⟩ := cfgFacts_contained hcfg
  obtain ⟨⟨analyses, locations, accesses, identityKeys, hflowFrame⟩, hflow⟩ :=
    dataFlowFacts_contained hflow
  obtain ⟨⟨entries, hframe⟩, hsummaries⟩ := interproceduralFacts_contained hsummaries
  refine ⟨final, ?_, ?_, ?_, hsummaries⟩
  -- a later pass keeps the tables of the earlier ones
  · subst hframe hflowFrame hcfgFrame
    exact ⟨rfl, rfl⟩
  · subst hframe hflowFrame
    exact ⟨hcfg.graphsShown, hcfg.blocksShown, hcfg.elementsShown, hcfg.graphs, hcfg.blocks,
      hcfg.elements, hcfg.edges⟩
  · subst hframe
    exact ⟨hflow.analysesShown, hflow.locationsShown, hflow.accessesShown, hflow.analyses,
      hflow.locations, hflow.accesses, hflow.evidence⟩

/-- The navigation profile enters nothing more. -/
theorem profileFacts_contained [NativeLibrary] {called : FactTables} {deep : DeepRows}
    (h : ctx.profileFacts facts called = .ok deep) :
    ∃ final : FactTables, (final.keys = called.keys ∧ final.callsiteIds = called.callsiteIds) ∧
      CfgContained final deep.cfg ∧ DataFlowContained final deep.dataFlow ∧
        SummariesContained final deep.summaries := by
  unfold profileFacts at h
  split at h
  · exact deepFacts_contained h
  · cases h
    refine ⟨{ keys := called.keys, callsiteIds := called.callsiteIds }, ⟨rfl, rfl⟩, ?_, ?_, ?_⟩
    · constructor <;> simp [Shown, Filed]
    · constructor <;> simp [Shown, Filed]
    · constructor <;> simp

theorem hasSymbol_of_named {tables : FactTables} (hnamed : Named tables)
    (hsymbols : batch.symbols = tables.symbols.items) {id : Identifier}
    (hid : FiledId tables.keys id) : batch.HasSymbol id.val := by
  obtain ⟨row, hget⟩ := hnamed.known id hid
  exact ⟨row, hsymbols ▸ Table.mem_items.mpr ⟨id.val, hget⟩, hnamed.keyed id.val row hget⟩

/-- The rows that the passes have made. -/
structure Passed [NativeLibrary] (ctx : FactContext) (facts : List Record) (batch : IngestionBatch)
    (tables called : FactTables) (calls : CallRows) (deep : DeepRows) : Prop where
  named : Named tables
  rows : ∃ occurrences edges, ctx.occurrencePass facts tables = .ok occurrences ∧
    ctx.edgePass facts tables = .ok edges ∧
      batch = ctx.batchOf called occurrences edges calls deep
  frame : ∃ callsiteIds, called = { tables with callsiteIds }
  sites : CallsContained called calls.callsites
  targets : ∀ row ∈ calls.targets, FiledId called.callsiteIds row.callsiteId ∧
    FiledId called.keys row.targetSymbolId
  profile : ctx.profileFacts facts called = .ok deep

theorem build_passed [NativeLibrary] (h : ctx.build facts = .ok batch) :
    ∃ tables called calls deep, Passed ctx facts batch tables called calls deep := by
  simp only [build, bind_eq_ok, lift_eq_ok] at h
  obtain ⟨tables, htables, occurrences, hoccurrences, edges, hedges, ⟨called, calls⟩, hcalls, deep,
    hdeep, hok⟩ := h
  cases hok
  have hnamed := symbolTables_named htables
  obtain ⟨hframe, hsites, htargets⟩ := callFacts_contained hcalls hnamed.uncalled
  exact ⟨tables, called, calls, deep, {
    named := hnamed
    rows := ⟨occurrences, edges, hoccurrences, hedges, rfl⟩
    frame := hframe
    sites := hsites
    targets := htargets
    profile := hdeep }⟩

section Passed

variable [NativeLibrary] {tables called : FactTables} {calls : CallRows} {deep : DeepRows}

theorem Passed.hasSymbol (h : Passed ctx facts batch tables called calls deep) {id : Identifier}
    (hid : FiledId tables.keys id) : batch.HasSymbol id.val := by
  obtain ⟨occurrences, edges, -, -, rfl⟩ := h.rows
  obtain ⟨callsiteIds, rfl⟩ := h.frame
  exact hasSymbol_of_named h.named rfl hid

theorem Passed.keys_eq (h : Passed ctx facts batch tables called calls deep) :
    called.keys = tables.keys := by
  obtain ⟨callsiteIds, rfl⟩ := h.frame
  rfl

theorem Passed.hasCallsite (h : Passed ctx facts batch tables called calls deep) {id : Identifier}
    (hid : FiledId called.callsiteIds id) : batch.HasCallsite id.val := by
  obtain ⟨occurrences, edges, -, -, rfl⟩ := h.rows
  obtain ⟨site, hsite, rfl⟩ := h.sites.shown id hid
  exact ⟨site, hsite, rfl⟩

/-- What the last tables hold is in the batch. -/
theorem Passed.resolves (h : Passed ctx facts batch tables called calls deep)
    {final : FactTables} (hkeys : final.keys = called.keys)
    (hsites : final.callsiteIds = called.callsiteIds) (hcfg : CfgContained final deep.cfg)
    (hflow : DataFlowContained final deep.dataFlow) : Resolves final batch where
  symbols id hid := h.hasSymbol (h.keys_eq ▸ hkeys ▸ hid)
  callsites id hid := h.hasCallsite (hsites ▸ hid)
  graphs := by
    intro id function hheld
    obtain ⟨occurrences, edges, -, -, rfl⟩ := h.rows
    obtain ⟨row, hrow, rfl, rfl⟩ := hcfg.graphsShown id function hheld
    exact ⟨row, hrow, rfl, rfl⟩
  blocks := by
    intro id graph hheld
    obtain ⟨occurrences, edges, -, -, rfl⟩ := h.rows
    obtain ⟨row, hrow, rfl, rfl⟩ := hcfg.blocksShown id graph hheld
    exact ⟨row, hrow, rfl, rfl⟩
  elements := by
    intro id graph hheld
    obtain ⟨occurrences, edges, -, -, rfl⟩ := h.rows
    obtain ⟨row, hrow, rfl, rfl⟩ := hcfg.elementsShown id graph hheld
    exact ⟨row, hrow, rfl, rfl⟩
  analyses := by
    intro id graph hheld
    obtain ⟨occurrences, edges, -, -, rfl⟩ := h.rows
    obtain ⟨row, hrow, rfl, rfl⟩ := hflow.analysesShown id graph hheld
    exact ⟨row, hrow, rfl, rfl⟩
  locations := by
    intro id analysis hheld
    obtain ⟨occurrences, edges, -, -, rfl⟩ := h.rows
    obtain ⟨row, hrow, rfl, rfl⟩ := hflow.locationsShown id analysis hheld
    exact ⟨row, hrow, rfl, rfl⟩
  accesses := by
    intro id analysis hheld
    obtain ⟨occurrences, edges, -, -, rfl⟩ := h.rows
    obtain ⟨row, hrow, rfl, rfl⟩ := hflow.accessesShown id analysis hheld
    exact ⟨row, hrow, rfl, rfl⟩

end Passed

/-! ## The batch is closed -/

/-- Symbols, occurrences and edges have one id each, and navigation rows refer to symbols and
callsites of the batch. -/
theorem build_navigation_closed [NativeLibrary] (h : ctx.build facts = .ok batch) :
    batch.NavigationSorted ∧ batch.NavigationClosed := by
  obtain ⟨tables, called, calls, deep, hpassed⟩ := build_passed h
  have hsymbol : ∀ {id : Identifier}, FiledId tables.keys id → batch.HasSymbol id.val :=
    fun hid => hpassed.hasSymbol hid
  have hcalled : ∀ {id : Identifier}, FiledId called.keys id → batch.HasSymbol id.val :=
    fun hid => hpassed.hasSymbol (hpassed.keys_eq ▸ hid)
  have hcallsite : ∀ {id : Identifier}, FiledId called.callsiteIds id →
      batch.HasCallsite id.val := fun hid => hpassed.hasCallsite hid
  obtain ⟨occurrences, edges, hoccurrences, hedges, hbatch⟩ := hpassed.rows
  obtain ⟨callsiteIds, hcalledTables⟩ := hpassed.frame
  constructor
  · subst hbatch hcalledTables
    exact ⟨hpassed.named.keyed.items_sorted, (occurrencePass_keyed hoccurrences).items_sorted,
      (edgePass_keyed hedges).items_sorted⟩
  constructor
  case occurrences =>
    intro row hrow
    subst hbatch
    obtain ⟨hid, henclosing⟩ := occurrencePass_known hoccurrences row hrow
    exact ⟨hsymbol hid, fun id hmem => hsymbol (henclosing id hmem)⟩
  case edges =>
    intro row hrow
    subst hbatch
    obtain ⟨hsource, htarget⟩ := edgePass_known hedges row hrow
    exact ⟨hsymbol hsource, hsymbol htarget⟩
  case callsites =>
    intro row hrow
    subst hbatch
    obtain ⟨key, hsite⟩ := hpassed.sites.sites row hrow
    exact ⟨hcalled hsite.owner, fun id hid => hcalled (hsite.target id hid),
      fun frame hframe => hcalled (hsite.frames frame hframe)⟩
  case targets =>
    intro row hrow
    subst hbatch
    obtain ⟨hsite, htarget⟩ := hpassed.targets row hrow
    exact ⟨hcallsite hsite, hcalled htarget⟩

theorem build_navigation_closed_selfCall : ∃ batch : IngestionBatch,
    batch.callTargets.length = 1 ∧ batch.NavigationSorted ∧ batch.NavigationClosed := by
  obtain ⟨batch, hbuild, htargets, -⟩ := selfCall_built
  exact ⟨batch, htargets,
    @build_navigation_closed selfCallContext selfCallFacts batch selfCallLibrary hbuild⟩

/-- No control-flow reference leaves its graph. -/
theorem build_control_flow_closed [NativeLibrary] (h : ctx.build facts = .ok batch) :
    batch.ControlFlowClosed := by
  obtain ⟨tables, called, calls, deep, hpassed⟩ := build_passed h
  obtain ⟨final, ⟨hkeys, hsites⟩, hcfg, hflow, -⟩ := profileFacts_contained hpassed.profile
  have hresolves := hpassed.resolves hkeys hsites hcfg hflow
  obtain ⟨occurrences, edges, -, -, rfl⟩ := hpassed.rows
  exact hresolves.controlFlowClosed hcfg rfl rfl rfl rfl

theorem build_control_flow_closed_selfCall : ∃ batch : IngestionBatch,
    batch.cfgEdges.length = 1 ∧ batch.ControlFlowClosed := by
  obtain ⟨batch, hbuild, -, hedges, -⟩ := selfCall_built
  exact ⟨batch, hedges,
    @build_control_flow_closed selfCallContext selfCallFacts batch selfCallLibrary hbuild⟩

/-- No data-flow reference leaves its analysis, and none the graph of the analysis. -/
theorem build_data_flow_closed [NativeLibrary] (h : ctx.build facts = .ok batch) :
    batch.DataFlowClosed := by
  obtain ⟨tables, called, calls, deep, hpassed⟩ := build_passed h
  obtain ⟨final, ⟨hkeys, hsites⟩, hcfg, hflow, -⟩ := profileFacts_contained hpassed.profile
  have hresolves := hpassed.resolves hkeys hsites hcfg hflow
  obtain ⟨occurrences, edges, -, -, rfl⟩ := hpassed.rows
  exact hresolves.dataFlowClosed hflow rfl rfl rfl rfl

theorem build_data_flow_closed_selfCall : ∃ batch : IngestionBatch,
    batch.dataFlowEvidence.length = 1 ∧ batch.DataFlowClosed := by
  obtain ⟨batch, hbuild, -, -, hevidence, -⟩ := selfCall_built
  exact ⟨batch, hevidence,
    @build_data_flow_closed selfCallContext selfCallFacts batch selfCallLibrary hbuild⟩

/-- No reference of a summary leaves its analysis, and no parameter its function. -/
theorem build_summaries_closed [NativeLibrary] (h : ctx.build facts = .ok batch) :
    batch.SummariesClosed := by
  obtain ⟨tables, called, calls, deep, hpassed⟩ := build_passed h
  obtain ⟨final, ⟨hkeys, hsites⟩, hcfg, hflow, hsummaries⟩ := profileFacts_contained hpassed.profile
  have hresolves := hpassed.resolves hkeys hsites hcfg hflow
  obtain ⟨occurrences, edges, -, -, rfl⟩ := hpassed.rows
  exact hresolves.summariesClosed hsummaries rfl rfl rfl rfl rfl

theorem build_summaries_closed_selfCall : ∃ batch : IngestionBatch,
    batch.callArgumentBindings.length = 1 ∧ batch.SummariesClosed := by
  obtain ⟨batch, hbuild, -, -, -, hbindings⟩ := selfCall_built
  exact ⟨batch, hbindings,
    @build_summaries_closed selfCallContext selfCallFacts batch selfCallLibrary hbuild⟩

end FactContext

end CppContextEngine.Ingestion
