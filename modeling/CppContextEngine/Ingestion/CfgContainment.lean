import CppContextEngine.Ingestion.FactReferences

/-!
# Containment of control-flow rows

Both ends of an edge, the entry and the exits of a graph and the block of an
element are blocks of the graph that the row names.
-/

namespace CppContextEngine.Ingestion

open CppContextEngine.Foundation CppContextEngine.Models

namespace FactContext

variable {ctx : FactContext} {tables : FactTables} {fact : Record}

/-! ## Entries -/

section Entries

variable [NativeLibrary]

theorem cfgGraphEntry_ok {key : String} {owned : Owned}
    (h : ctx.cfgGraphEntry tables fact = .ok (key, owned)) :
    fact.string "key" = .ok key ∧
      fact.string "function_key" >>= tables.knownId = .ok owned.owner := by
  simp only [cfgGraphEntry, bind_eq_ok] at h
  obtain ⟨found, hkey, functionKey, hfunctionKey, functionId, hfunction, hok⟩ := h
  cases hok
  exact ⟨hkey, bind_eq_ok.mpr ⟨functionKey, hfunctionKey, hfunction⟩⟩

theorem cfgBlockEntry_ok {key : String} {owned : Owned}
    (h : cfgBlockEntry tables fact = .ok (key, owned)) :
    fact.string "key" = .ok key ∧
      fact.string "graph_key" >>= tables.knownCfgGraph = .ok owned.owner := by
  simp only [cfgBlockEntry, bind_eq_ok] at h
  obtain ⟨graphKey, hgraphKey, graphId, hgraph, index, -, found, hkey, hok⟩ := h
  cases hok
  exact ⟨hkey, bind_eq_ok.mpr ⟨graphKey, hgraphKey, hgraph⟩⟩

end Entries

/-! ## Rows -/

theorem cfgGraphFact_ok {row : CfgGraph} (h : ctx.cfgGraphFact tables fact = .ok row) :
    fact.string "key" >>= tables.knownCfgGraph = .ok row.id ∧
      fact.string "function_key" >>= tables.knownId = .ok row.functionSymbolId ∧
        fact.string "entry_block_key" >>= tables.knownCfgBlock = .ok row.entryBlockId ∧
          fact.string "normal_exit_block_key" >>= tables.knownCfgBlock =
            .ok row.normalExitBlockId ∧
              ∃ key, fact.textOrNone "exceptional_exit_block_key"
                "analyzer CFG exceptional exit key is invalid" = .ok key ∧
                  knownIfGiven tables.knownCfgBlock key = .ok row.exceptionalExitBlockId := by
  simp only [cfgGraphFact, bind_eq_ok] at h
  obtain ⟨key, hkey, id, hid, version, -, clang, -, _, -, options, -, exceptionalKey,
    hexceptionalKey, functionKey, hfunctionKey, functionId, hfunction, entryKey, hentryKey, entryId, hentry,
    normalKey, hnormalKey, normalId, hnormal, exceptionalId, hexceptional, hok⟩ := h
  cases hok
  exact ⟨bind_eq_ok.mpr ⟨key, hkey, hid⟩, bind_eq_ok.mpr ⟨functionKey, hfunctionKey, hfunction⟩,
    bind_eq_ok.mpr ⟨entryKey, hentryKey, hentry⟩, bind_eq_ok.mpr ⟨normalKey, hnormalKey, hnormal⟩,
    exceptionalKey, hexceptionalKey, hexceptional⟩

theorem cfgBlockFact_ok {row : CfgBlock} (h : ctx.cfgBlockFact tables fact = .ok row) :
    fact.string "key" >>= tables.knownCfgBlock = .ok row.id ∧
      fact.string "graph_key" >>= tables.knownCfgGraph = .ok row.graphId := by
  simp only [cfgBlockFact, bind_eq_ok] at h
  obtain ⟨key, hkey, id, hid, graphKey, hgraphKey, graphId, hgraph, index, -, roleText, -,
    role, -, reachable, -, kind, -, text, -, spelling, -, expansion, -, labelKind, -, labelText, -,
    hok⟩ := h
  cases hok
  exact ⟨bind_eq_ok.mpr ⟨key, hkey, hid⟩, bind_eq_ok.mpr ⟨graphKey, hgraphKey, hgraph⟩⟩

theorem cfgElementFact_ok {row : CfgElement} (h : ctx.cfgElementFact tables fact = .ok row) :
    fact.string "key" >>= tables.knownCfgElement = .ok row.id ∧
      fact.string "graph_key" >>= tables.knownCfgGraph = .ok row.graphId ∧
        fact.string "block_key" >>= tables.knownCfgBlock = .ok row.blockId := by
  simp only [cfgElementFact, bind_eq_ok] at h
  obtain ⟨graphKey, hgraphKey, graphId, hgraph, blockKey, hblockKey, blockId, hblock, index, -,
    metadata, -, key, hkey, id, hid, kindText, -, statementClass, -, text, -, spelling, -,
    expansion, -, kind, -, hok⟩ := h
  cases hok
  exact ⟨bind_eq_ok.mpr ⟨key, hkey, hid⟩, bind_eq_ok.mpr ⟨graphKey, hgraphKey, hgraph⟩,
    bind_eq_ok.mpr ⟨blockKey, hblockKey, hblock⟩⟩

theorem cfgEdgeFact_ok [NativeLibrary] {row : CfgEdge} (h : ctx.cfgEdgeFact tables fact = .ok row) :
    fact.string "graph_key" >>= tables.knownCfgGraph = .ok row.graphId ∧
      fact.string "source_block_key" >>= tables.knownCfgBlock = .ok row.sourceBlockId ∧
        fact.string "target_block_key" >>= tables.knownCfgBlock = .ok row.targetBlockId := by
  simp only [cfgEdgeFact, bind_eq_ok] at h
  obtain ⟨graphKey, hgraphKey, graphId, hgraph, sourceKey, hsourceKey, sourceId, hsource,
    targetKey, htargetKey, targetId, htarget, index, -, kindText, -, kind, -, feasible, -,
    hok⟩ := h
  cases hok
  exact ⟨bind_eq_ok.mpr ⟨graphKey, hgraphKey, hgraph⟩,
    bind_eq_ok.mpr ⟨sourceKey, hsourceKey, hsource⟩,
    bind_eq_ok.mpr ⟨targetKey, htargetKey, htarget⟩⟩

/-! ## Checked graphs -/

theorem exceptionalExitKey_eq {message : String} {key key' : Option String}
    (hkey : fact.textOrNone "exceptional_exit_block_key" message = .ok key)
    (hkey' : exceptionalExitKey fact = .ok key') : key = key' := by
  unfold Record.textOrNone at hkey
  unfold exceptionalExitKey at hkey'
  cases hvalue : fact.get "exceptional_exit_block_key" with
  | null =>
      rw [hvalue] at hkey hkey'
      cases hkey
      cases hkey'
      rfl
  | text value =>
      rw [hvalue] at hkey hkey'
      cases hkey
      simp only at hkey'
      split at hkey'
      · cases hkey'
      · cases hkey'
        rfl
  | _ =>
      rw [hvalue] at hkey
      cases hkey

theorem checkCfgGraph_ok {done : Unit} (h : checkCfgGraph tables fact = .ok done) :
    ∃ graphId entry normal exceptional, fact.string "key" >>= tables.knownCfgGraph = .ok graphId ∧
      fact.string "entry_block_key" = .ok entry ∧
        fact.string "normal_exit_block_key" = .ok normal ∧
          exceptionalExitKey fact = .ok exceptional ∧
            ∀ key ∈ entry :: normal :: exceptional.toList,
              ownerOf tables.cfgBlocks key = some graphId := by
  simp only [checkCfgGraph, bind_eq_ok] at h
  obtain ⟨key, hkey, graphId, hgraph, entry, hentry, normal, hnormal, exceptional, hexceptional,
    hchecked⟩ := h
  split at hchecked
  · cases hchecked
  · rename_i hall
    push Not at hall
    exact ⟨graphId, entry, normal, exceptional, bind_eq_ok.mpr ⟨key, hkey, hgraph⟩, hentry,
      hnormal, hexceptional, hall⟩

/-- The entry and the exits of a graph's row are blocks of the graph. -/
theorem cfgGraphFact_contained {row : CfgGraph} {done : Unit}
    (hcheck : checkCfgGraph tables fact = .ok done)
    (hrow : ctx.cfgGraphFact tables fact = .ok row) :
    Filed tables.cfgBlocks row.entryBlockId row.id ∧
      Filed tables.cfgBlocks row.normalExitBlockId row.id ∧
        ∀ id ∈ row.exceptionalExitBlockId, Filed tables.cfgBlocks id row.id := by
  obtain ⟨graphId, entry, normal, exceptional, hgraph, hentry, hnormal, hexceptional, hall⟩ :=
    checkCfgGraph_ok hcheck
  obtain ⟨hid, -, hentryId, hnormalId, key, hkey, hexceptionalId⟩ := cfgGraphFact_ok hrow
  rw [hid] at hgraph
  cases hgraph
  refine ⟨filed_of_reference hentryId hentry (hall _ (by simp)),
    filed_of_reference hnormalId hnormal (hall _ (by simp)), ?_⟩
  intro id hmem
  obtain ⟨text, htext, -, hknown⟩ := knownIfGiven_some hexceptionalId hmem
  have hsame := exceptionalExitKey_eq hkey hexceptional
  exact filed_of_known hknown (hall text (by simp [← hsame, htext]))

/-! ## Checked edges -/

theorem checkCfgEdge_ok {done : Unit} (h : checkCfgEdge tables fact = .ok done) :
    ∃ graphId source target, fact.string "graph_key" >>= tables.knownCfgGraph = .ok graphId ∧
      (fact.string "source_block_key" = .ok source ∧
        ownerOf tables.cfgBlocks source = some graphId) ∧
          fact.string "target_block_key" = .ok target ∧
            ownerOf tables.cfgBlocks target = some graphId := by
  simp only [checkCfgEdge, bind_eq_ok] at h
  obtain ⟨key, hkey, graphId, hgraph, source, hsource, hchecked⟩ := h
  split at hchecked
  · cases hchecked
  · rename_i hsourceOwner
    obtain ⟨target, htarget, hrest⟩ := bind_eq_ok.mp hchecked
    split at hrest
    · cases hrest
    · rename_i htargetOwner
      push Not at hsourceOwner htargetOwner
      exact ⟨graphId, source, target, bind_eq_ok.mpr ⟨key, hkey, hgraph⟩,
        ⟨hsource, hsourceOwner⟩, htarget, htargetOwner⟩

/-- Both ends of an edge's row are blocks of its graph. -/
theorem cfgEdgeFact_contained [NativeLibrary] {row : CfgEdge} {done : Unit}
    (hcheck : checkCfgEdge tables fact = .ok done) (hrow : ctx.cfgEdgeFact tables fact = .ok row) :
    Filed tables.cfgBlocks row.sourceBlockId row.graphId ∧
      Filed tables.cfgBlocks row.targetBlockId row.graphId := by
  obtain ⟨graphId, source, target, hgraph, ⟨hsource, hsourceOwner⟩, htarget, htargetOwner⟩ :=
    checkCfgEdge_ok hcheck
  obtain ⟨hgraphId, hsourceId, htargetId⟩ := cfgEdgeFact_ok hrow
  rw [hgraphId] at hgraph
  cases hgraph
  exact ⟨filed_of_reference hsourceId hsource hsourceOwner,
    filed_of_reference htargetId htarget htargetOwner⟩

/-! ## Elements -/

section Elements

variable [NativeLibrary]

/-- A fact enters an element under its key, and its block is in the element's graph. -/
def EntersElement (tables : FactTables) (raw : Record) (key : String) (element : Owned) : Prop :=
  ∃ fact block, tables.restored raw = .ok fact ∧ fact.string "key" = .ok key ∧
    fact.string "graph_key" >>= tables.knownCfgGraph = .ok element.owner ∧
      fact.string "block_key" = .ok block ∧ ownerOf tables.cfgBlocks block = some element.owner

theorem cfgElementStep_ok {state next : CfgElementState} {raw : Record}
    (h : cfgElementStep tables state raw = .ok next) (hnext : next.2 = false) :
    state.2 = false ∧ ∃ key element, next.1 = state.1.insert key element ∧
      EntersElement tables raw key element := by
  simp only [cfgElementStep, bind_eq_ok] at h
  obtain ⟨fact, hfact, graphKey, hgraphKey, graphId, hgraph, block, hblock, blockId, -, index, -,
    key, hkey, hok⟩ := h
  cases hok
  simp only [Bool.or_eq_false_iff, decide_eq_false_iff_not, ne_eq, not_not] at hnext
  exact ⟨hnext.1, key, _, rfl, fact, block, hfact, hkey,
    bind_eq_ok.mpr ⟨graphKey, hgraphKey, hgraph⟩, hblock, hnext.2⟩

/-- The loop over elements, when it leaves no mismatch. -/
theorem foldlM_cfgElementStep_ok {raws : List Record} : ∀ {state final : CfgElementState},
    raws.foldlM (cfgElementStep tables) state = .ok final → final.2 = false →
      state.2 = false ∧ (∀ raw ∈ raws, ∃ key element, EntersElement tables raw key element) ∧
        ∀ (key : String) (element : Owned), final.1[key]? = some element →
          state.1[key]? = some element ∨ ∃ raw ∈ raws, EntersElement tables raw key element := by
  induction raws with
  | nil =>
      intro state final h hfinal
      cases h
      simp [hfinal]
  | cons raw raws ih =>
      intro state final h hfinal
      rw [List.foldlM_cons] at h
      obtain ⟨next, hnext, hrest⟩ := bind_eq_ok.mp h
      obtain ⟨hflag, hall, hentries⟩ := ih hrest hfinal
      obtain ⟨hstate, key, element, hinsert, henters⟩ := cfgElementStep_ok hnext hflag
      refine ⟨hstate, List.forall_mem_cons.mpr ⟨⟨key, element, henters⟩, hall⟩, ?_⟩
      intro other value hvalue
      rw [List.exists_mem_cons_iff, ← or_assoc]
      rcases hentries other value hvalue with hold | hlater
      · rw [hinsert, Table.getElem?_insert] at hold
        split at hold
        · rename_i hkey
          cases hold
          exact .inl (.inr (hkey ▸ henters))
        · exact .inl (.inl hold)
      · exact .inr hlater

/-- The block of an element's row is a block of its graph. -/
theorem cfgElementFact_contained {raw : Record} {key : String} {element : Owned} {row : CfgElement}
    (henters : EntersElement tables raw key element) (hfact : tables.restored raw = .ok fact)
    (hrow : ctx.cfgElementFact tables fact = .ok row) :
    fact.string "key" = .ok key ∧ row.graphId = element.owner ∧
      Filed tables.cfgBlocks row.blockId row.graphId := by
  obtain ⟨other, block, hother, hkey, hgraph, hblock, howner⟩ := henters
  rw [hfact] at hother
  cases hother
  obtain ⟨-, hgraphId, hblockId⟩ := cfgElementFact_ok hrow
  have hsame : row.graphId = element.owner := Except.ok.inj (hgraphId.symm.trans hgraph)
  exact ⟨hkey, hsame, hsame ▸ filed_of_reference hblockId hblock howner⟩

end Elements

/-! ## The pass -/

/-- What the pass enters has rows, and what its rows refer to is entered. -/
structure CfgContained (after : FactTables) (rows : CfgRows) : Prop where
  graphsShown : Shown after.cfgGraphs rows.graphs CfgGraph.id CfgGraph.functionSymbolId
  blocksShown : Shown after.cfgBlocks rows.blocks CfgBlock.id CfgBlock.graphId
  elementsShown : Shown after.cfgElements rows.elements CfgElement.id CfgElement.graphId
  graphs : ∀ row ∈ rows.graphs, FiledId after.keys row.functionSymbolId ∧
    Filed after.cfgBlocks row.entryBlockId row.id ∧
      Filed after.cfgBlocks row.normalExitBlockId row.id ∧
        ∀ id ∈ row.exceptionalExitBlockId, Filed after.cfgBlocks id row.id
  blocks : ∀ row ∈ rows.blocks, ∃ function, Filed after.cfgGraphs row.graphId function
  elements : ∀ row ∈ rows.elements, (∃ function, Filed after.cfgGraphs row.graphId function) ∧
    Filed after.cfgBlocks row.blockId row.graphId
  edges : ∀ row ∈ rows.edges, (∃ function, Filed after.cfgGraphs row.graphId function) ∧
    Filed after.cfgBlocks row.sourceBlockId row.graphId ∧
      Filed after.cfgBlocks row.targetBlockId row.graphId

section Pass

variable [NativeLibrary]

/-- What the loops over graphs, blocks and elements enter. -/
structure CfgFilled (ctx : FactContext) (after : FactTables)
    (facts graphFacts blockFacts : List Record) : Prop where
  graphs : fillTable graphFacts (ctx.cfgGraphEntry after) = .ok after.cfgGraphs
  blocks : fillTable blockFacts (cfgBlockEntry after) = .ok after.cfgBlocks
  checked : ∀ raw ∈ factRecords facts "cfg_element_v1", ∃ key element,
    EntersElement after raw key element
  elements : ∀ (key : String) (element : Owned), after.cfgElements[key]? = some element →
    ∃ raw ∈ factRecords facts "cfg_element_v1", EntersElement after raw key element

theorem cfgTables_ok {before : FactTables} {facts graphFacts blockFacts : List Record}
    {filled : FactTables × Bool}
    (h : ctx.cfgTables before facts graphFacts blockFacts = .ok filled)
    (hmatch : filled.2 = false) :
    (∃ cfgGraphs cfgBlocks cfgElements,
      filled.1 = { before with cfgGraphs, cfgBlocks, cfgElements }) ∧
        CfgFilled ctx filled.1 facts graphFacts blockFacts := by
  simp only [cfgTables, bind_eq_ok] at h
  obtain ⟨graphs, hgraphs, blocks, hblocks, elements, helements, hok⟩ := h
  cases hok
  obtain ⟨-, hchecked, hentries⟩ := foldlM_cfgElementStep_ok helements hmatch
  refine ⟨⟨graphs, blocks, elements.1, rfl⟩, ?_⟩
  exact {
    graphs := hgraphs
    blocks := hblocks
    checked := hchecked
    elements := fun key element hget => (hentries key element hget).resolve_left (by simp) }

/-- What the pass has checked, and where its rows come from. -/
structure CfgRead (ctx : FactContext) (tables : FactTables)
    (facts graphFacts blockFacts : List Record) (rows : CfgRows) : Prop where
  checkedGraphs : ∀ fact ∈ graphFacts, ∃ done, checkCfgGraph tables fact = .ok done
  checkedEdges : ∀ raw ∈ factRecords facts "cfg_edge_v1", ∃ done,
    tables.fromRaw (checkCfgEdge tables) raw = .ok done
  graphs : Collects (ctx.cfgGraphFact tables) graphFacts rows.graphs
  blocks : Collects (ctx.cfgBlockFact tables) blockFacts rows.blocks
  elements : Collects (tables.fromRaw (ctx.cfgElementFact tables))
    (factRecords facts "cfg_element_v1") rows.elements
  edges : Collects (tables.fromRaw (ctx.cfgEdgeFact tables)) (factRecords facts "cfg_edge_v1")
    rows.edges

theorem cfgRows_ok {facts graphFacts blockFacts : List Record} {mismatch : Bool} {rows : CfgRows}
    (h : ctx.cfgRows tables facts graphFacts blockFacts mismatch = .ok rows) :
    mismatch = false ∧ CfgRead ctx tables facts graphFacts blockFacts rows := by
  unfold cfgRows at h
  obtain ⟨checked, hchecked, h⟩ := bind_eq_ok.mp h
  split at h
  · cases h
  · rename_i hmatch
    simp only [bind_eq_ok] at h
    obtain ⟨checkedEdges, hcheckedEdges, graphs, hgraphs, blocks, hblocks, elements, helements,
      edges, hedges, hok⟩ := h
    cases hok
    refine ⟨by simpa using hmatch, ?_⟩
    exact {
      checkedGraphs := fun fact hfact =>
        ((collects_of_mapM hchecked).complete fact hfact).imp fun _ hdone => hdone.2
      checkedEdges := fun raw hraw =>
        ((collects_of_mapM hcheckedEdges).complete raw hraw).imp fun _ hdone => hdone.2
      graphs := collects_sortBy _ hgraphs
      blocks := collects_sortBy _ hblocks
      elements := collects_sortBy _ helements
      edges := collects_sortBy _ hedges }

variable {before after : FactTables} {facts graphFacts blockFacts : List Record} {rows : CfgRows}

theorem graphsShown_of_read (hfilled : CfgFilled ctx after facts graphFacts blockFacts)
    (hread : CfgRead ctx after facts graphFacts blockFacts rows) :
    Shown after.cfgGraphs rows.graphs CfgGraph.id CfgGraph.functionSymbolId := by
  apply shown_of_fillTable hfilled.graphs hread.graphs
  intro fact key owned row hentry hget hrow
  obtain ⟨hkey, hfunction⟩ := cfgGraphEntry_ok hentry
  obtain ⟨hid, hfunctionId, -⟩ := cfgGraphFact_ok hrow
  exact ⟨id_of_reference hid hkey hget, Except.ok.inj (hfunctionId.symm.trans hfunction)⟩

theorem blocksShown_of_read (hfilled : CfgFilled ctx after facts graphFacts blockFacts)
    (hread : CfgRead ctx after facts graphFacts blockFacts rows) :
    Shown after.cfgBlocks rows.blocks CfgBlock.id CfgBlock.graphId := by
  apply shown_of_fillTable hfilled.blocks hread.blocks
  intro fact key owned row hentry hget hrow
  obtain ⟨hkey, hgraph⟩ := cfgBlockEntry_ok hentry
  obtain ⟨hid, hgraphId⟩ := cfgBlockFact_ok hrow
  exact ⟨id_of_reference hid hkey hget, Except.ok.inj (hgraphId.symm.trans hgraph)⟩

theorem elementsShown_of_read (hfilled : CfgFilled ctx after facts graphFacts blockFacts)
    (hread : CfgRead ctx after facts graphFacts blockFacts rows) :
    Shown after.cfgElements rows.elements CfgElement.id CfgElement.graphId := by
  rintro id owner ⟨key, hget⟩
  obtain ⟨raw, hraw, henters⟩ := hfilled.elements key _ hget
  obtain ⟨row, hrow, hmade⟩ := hread.elements.complete raw hraw
  obtain ⟨fact, hfact, hrowFact⟩ := fromRaw_eq_ok.mp hmade
  obtain ⟨hkey, hgraph, -⟩ := cfgElementFact_contained henters hfact hrowFact
  exact ⟨row, hrow, id_of_reference (cfgElementFact_ok hrowFact).1 hkey hget, hgraph⟩

theorem cfgContained_of_read (hfilled : CfgFilled ctx after facts graphFacts blockFacts)
    (hread : CfgRead ctx after facts graphFacts blockFacts rows) :
    CfgContained after rows where
  graphsShown := graphsShown_of_read hfilled hread
  blocksShown := blocksShown_of_read hfilled hread
  elementsShown := elementsShown_of_read hfilled hread
  graphs := by
    intro row hrow
    obtain ⟨fact, hfact, hmade⟩ := hread.graphs.sound row hrow
    obtain ⟨done, hcheck⟩ := hread.checkedGraphs fact hfact
    exact ⟨filedId_of_reference (cfgGraphFact_ok hmade).2.1, cfgGraphFact_contained hcheck hmade⟩
  blocks := by
    intro row hrow
    obtain ⟨fact, -, hmade⟩ := hread.blocks.sound row hrow
    exact exists_filed_of_reference (cfgBlockFact_ok hmade).2
  elements := by
    intro row hrow
    obtain ⟨raw, hraw, hmade⟩ := hread.elements.sound row hrow
    obtain ⟨fact, hfact, hrowFact⟩ := fromRaw_eq_ok.mp hmade
    obtain ⟨key, element, henters⟩ := hfilled.checked raw hraw
    exact ⟨exists_filed_of_reference (cfgElementFact_ok hrowFact).2.1,
      (cfgElementFact_contained henters hfact hrowFact).2.2⟩
  edges := by
    intro row hrow
    obtain ⟨raw, hraw, hmade⟩ := hread.edges.sound row hrow
    obtain ⟨fact, hfact, hrowFact⟩ := fromRaw_eq_ok.mp hmade
    obtain ⟨done, hchecked⟩ := hread.checkedEdges raw hraw
    obtain ⟨other, hother, hcheck⟩ := fromRaw_eq_ok.mp hchecked
    rw [hfact] at hother
    cases hother
    exact ⟨exists_filed_of_reference (cfgEdgeFact_ok hrowFact).1,
      cfgEdgeFact_contained hcheck hrowFact⟩

theorem cfgFacts_contained (h : ctx.cfgFacts before facts = .ok (after, rows)) :
    (∃ cfgGraphs cfgBlocks cfgElements,
      after = { before with cfgGraphs, cfgBlocks, cfgElements }) ∧ CfgContained after rows := by
  simp only [cfgFacts, bind_eq_ok] at h
  obtain ⟨graphFacts, -, blockFacts, -, filled, hfilled, made, hmade, hok⟩ := h
  cases hok
  obtain ⟨hmatch, hread⟩ := cfgRows_ok hmade
  obtain ⟨hframe, hentered⟩ := cfgTables_ok hfilled hmatch
  exact ⟨hframe, cfgContained_of_read hentered hread⟩

end Pass

end FactContext

end CppContextEngine.Ingestion
