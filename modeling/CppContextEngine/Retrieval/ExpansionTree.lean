import CppContextEngine.Foundation.Fallible
import CppContextEngine.Foundation.Levels
import CppContextEngine.Retrieval.Candidates

/-!
# The tree of a graph expansion

What the adapters serve is read off one graph and one catalog of symbols.
Every candidate that expansion reaches hangs on a seed by stored edges, and a
run that reports nothing has followed every edge that the adapters gave it.
-/

namespace CppContextEngine.Retrieval

open CppContextEngine.Foundation CppContextEngine.Models

/-! ## The graph and the symbols behind the adapters -/

/-- The stored edges, and the stored calls: the owner of a callsite with a target. -/
structure GraphContents where
  edges : List GraphEdge
  calls : List (Identifier × CallTarget)

/-- The edge that a call stands for. -/
def callEdge (call : Identifier × CallTarget) : GraphEdge :=
  ⟨call.1, call.2.targetSymbolId, .calls, call.2.buildVariant⟩

/-- A symbol in a build. -/
abbrev Node := String × String

def Candidate.node (candidate : Candidate) : Node :=
  (candidate.hit.symbol.buildVariant, candidate.hit.symbol.text.id.val)

/-- The edge runs between the two symbols, either way. -/
def Joins (edge : GraphEdge) (id other : String) : Prop :=
  edge.sourceId.val = id ∧ edge.targetId.val = other ∨
    edge.targetId.val = id ∧ edge.sourceId.val = other

namespace HybridRetriever

variable (r : HybridRetriever)

/-- How the graph adapter serves the contents: whole lists, cut at the limit. -/
structure Service (graph : GraphAdapter) (contents : GraphContents) where
  listed : String → String → List GraphEdge
  ranked : String → Bool → String → List (Identifier × CallTarget)
  mem_listed : ∀ id build edge, edge ∈ listed id build ↔ edge ∈ contents.edges ∧
    edge.buildVariant = build ∧ (r.config.relations = [] ∨ edge.relation ∈ r.config.relations) ∧
      (edge.sourceId.val = id ∨ edge.targetId.val = id)
  mem_ranked : ∀ id incoming build call, call ∈ ranked id incoming build ↔
    call ∈ contents.calls ∧ call.2.buildVariant = build ∧
      (if incoming then call.2.targetSymbolId.val else call.1.val) = id
  neighbors : ∀ id build limit,
    graph.neighbors id r.config.relations (some (limit, build)) =
        .ok ((listed id build).take limit) ∨
      ∃ name, graph.neighbors id r.config.relations (some (limit, build)) = .error (.other name)
  callEvidence : ∀ lookup, graph.callEvidence = some lookup → ∀ id incoming build limit,
    lookup id incoming build limit = .ok ((ranked id incoming build).take limit) ∨
      ∃ raised, lookup id incoming build limit = .error raised
  noEvidence : graph.callEvidence = none → contents.calls = []

/-- The symbols that the symbol adapter gives for a build and an identifier. -/
structure Catalog where
  symbolAt : String → String → Option CodeSymbol
  named : ∀ build id symbol, symbolAt build id = some symbol →
    symbol.buildVariant = build ∧ symbol.text.id.val = id
  getSymbols : ∀ lookup, r.symbolStore.getSymbols = some lookup → ∀ ids build symbols,
    lookup ids build = .ok symbols → symbols = ids.map (symbolAt build)
  getSymbol : ∀ build id, r.symbolStore.getSymbol id (some build) = .ok (symbolAt build id) ∨
    ∃ name, r.symbolStore.getSymbol id (some build) = .error (.other name)

variable {r}

/-- A symbol of a candidate or of the catalog. -/
def Catalog.Known (catalog : r.Catalog) (candidates : List Candidate) (symbol : CodeSymbol) :
    Prop :=
  (∃ candidate ∈ candidates, candidate.hit.symbol = symbol) ∨
    ∃ build id, catalog.symbolAt build id = some symbol

/-- An evidence key names one symbol of one build, also when it is spelled out. -/
structure Catalog.KeysName (catalog : r.Catalog) (candidates : List Candidate) : Prop where
  same : ∀ symbol other, catalog.Known candidates symbol → catalog.Known candidates other →
    evidenceKey symbol = evidenceKey other →
      symbol.buildVariant = other.buildVariant ∧ symbol.text.id = other.text.id
  spelled : ∀ symbol build id, catalog.Known candidates symbol →
    (catalog.symbolAt build id).isSome → evidenceKey symbol = build ++ ":" ++ id →
      symbol.buildVariant = build ∧ symbol.text.id.val = id

/-! ## Hops -/

/-- A stored edge, or one that a stored call stands for, of a configured relation. -/
def StoredEdge (relations : List GraphRelation) (contents : GraphContents) (edge : GraphEdge) :
    Prop :=
  edge.relation ∈ relations ∧
    (edge ∈ contents.edges ∨ ∃ call ∈ contents.calls, callEdge call = edge)

/-- An edge that the cut lookups around `node` can give. -/
def Service.Shown {graph : GraphAdapter} {contents : GraphContents}
    (service : r.Service graph contents) (node : Node) (edge : GraphEdge) : Prop :=
  edge.relation ∈ r.config.relations ∧ (edge ∈ contents.edges ∨ ∃ incoming,
    ∃ call ∈ (service.ranked node.2 incoming node.1).take (r.config.perNodeEdgeBudget + 1),
      callEdge call = edge)

/-- One hop, inside one build, to a symbol that is there. -/
def Catalog.Hop (catalog : r.Catalog) (edges : Node → GraphEdge → Prop) (node next : Node) :
    Prop :=
  ∃ edge, edges node edge ∧ edge.buildVariant = node.1 ∧ next.1 = node.1 ∧
    Joins edge node.2 next.2 ∧ (catalog.symbolAt next.1 next.2).isSome

variable {graph : GraphAdapter} {contents : GraphContents} {service : r.Service graph contents}
  {catalog : r.Catalog}

theorem Service.Shown.stored {node : Node} {edge : GraphEdge} (h : service.Shown node edge) :
    StoredEdge r.config.relations contents edge := by
  refine ⟨h.1, h.2.imp_right ?_⟩
  rintro ⟨incoming, call, hcall, rfl⟩
  exact ⟨call, ((service.mem_ranked _ _ _ _).mp (List.mem_of_mem_take hcall)).1, rfl⟩

theorem joins_of_neighborOf {current : CodeSymbol} {edge : GraphEdge} {neighbor : String}
    (h : neighborOf current edge = some neighbor) : Joins edge current.text.id.val neighbor := by
  unfold neighborOf at h
  split at h
  · rename_i hsource
    exact .inl ⟨congrArg Subtype.val hsource, by simpa using h⟩
  · split at h
    · rename_i htarget
      exact .inr ⟨congrArg Subtype.val htarget, by simpa using h⟩
    · cases h

theorem neighborOf_of_joins {current : CodeSymbol} {edge : GraphEdge} {neighbor : String}
    (h : Joins edge current.text.id.val neighbor) : neighborOf current edge = some neighbor := by
  unfold neighborOf
  rcases h with ⟨hsource, rfl⟩ | ⟨htarget, rfl⟩
  · rw [if_pos (Subtype.ext hsource)]
  · by_cases hsource : edge.sourceId = current.text.id
    · rw [if_pos hsource, hsource, htarget]
    · rw [if_neg hsource, if_pos (Subtype.ext htarget)]

/-! ## What the lookups around one symbol give -/

section Lookups

theorem foldl_add (calls : List (Identifier × CallTarget)) : ∀ evidence : CallEvidence,
    (calls.foldl CallEvidence.add evidence).edges = evidence.edges ++ calls.map callEdge ∧
      (calls.foldl CallEvidence.add evidence).diagnostics = evidence.diagnostics := by
  induction calls with
  | nil => simp
  | cons call calls ih =>
      intro evidence
      rw [List.foldl_cons, (ih _).1, (ih _).2]
      simp [CallEvidence.add, callEdge]

/-- One lookup of the calls around a symbol, out of it or into it. -/
def lookupCalls (lookup : String → Bool → String → Nat →
    Except Raised (List (Identifier × CallTarget))) (limit : Nat) (current : CodeSymbol)
    (evidence : CallEvidence) (incoming : Bool) : CallEvidence :=
  match lookup current.text.id incoming current.buildVariant limit with
  | .error raised =>
      { evidence with
        diagnostics := evidence.diagnostics ++ ["call evidence lookup failed for " ++
          current.text.id ++ ": " ++ raised.name] }
  | .ok items => items.foldl CallEvidence.add evidence

theorem gatherCalls_eq (graph : GraphAdapter) (current : CodeSymbol) (diagnostics : List String) :
    r.gatherCalls graph current diagnostics = match graph.callEvidence with
      | none => { diagnostics := diagnostics }
      | some lookup =>
          if GraphRelation.calls ∈ r.config.relations then
            [false, true].foldl (lookupCalls lookup (r.config.perNodeEdgeBudget + 1) current)
              { diagnostics := diagnostics }
          else { diagnostics := diagnostics } := by
  rfl

/-- The calls that a cut lookup can give. -/
def Service.cutCalls (service : r.Service graph contents) (current : CodeSymbol)
    (incoming : Bool) : List (Identifier × CallTarget) :=
  (service.ranked current.text.id.val incoming current.buildVariant).take
    (r.config.perNodeEdgeBudget + 1)

/-- A lookup adds the calls it can give, or a diagnostic. -/
theorem lookupCalls_spec (service : r.Service graph contents) {lookup}
    (hlookup : graph.callEvidence = some lookup) (current : CodeSymbol) (evidence : CallEvidence)
    (incoming : Bool) :
    let next := lookupCalls lookup (r.config.perNodeEdgeBudget + 1) current evidence incoming
    (next.edges = evidence.edges ++ (service.cutCalls current incoming).map callEdge ∧
        next.diagnostics = evidence.diagnostics) ∨
      (next.edges = evidence.edges ∧
        ∃ line, next.diagnostics = evidence.diagnostics ++ [line]) := by
  rcases service.callEvidence lookup hlookup current.text.id.val incoming current.buildVariant
    (r.config.perNodeEdgeBudget + 1) with hok | ⟨raised, herror⟩
  · left
    simp only [lookupCalls, hok]
    exact foldl_add _ evidence
  · right
    simp only [lookupCalls, herror]
    exact ⟨trivial, _, rfl⟩

/-- What is gathered after the lookups in some directions. -/
structure Gathered (service : r.Service graph contents) (current : CodeSymbol)
    (diagnostics : List String) (directions : List Bool) (evidence : CallEvidence) : Prop where
  shown : ∀ edge ∈ evidence.edges, ∃ incoming, ∃ call ∈ service.cutCalls current incoming,
    callEdge call = edge
  lines : ∃ lines, evidence.diagnostics = diagnostics ++ lines
  whole : evidence.diagnostics = diagnostics → ∀ incoming ∈ directions,
    ∀ call ∈ service.cutCalls current incoming, callEdge call ∈ evidence.edges

theorem Gathered.lookup {current : CodeSymbol} {diagnostics : List String}
    {directions : List Bool} {evidence : CallEvidence}
    (h : Gathered service current diagnostics directions evidence) {lookup}
    (hlookup : graph.callEvidence = some lookup) (incoming : Bool) :
    Gathered service current diagnostics (directions ++ [incoming])
      (lookupCalls lookup (r.config.perNodeEdgeBudget + 1) current evidence incoming) := by
  obtain ⟨lines, hlines⟩ := h.lines
  rcases lookupCalls_spec service hlookup current evidence incoming with
    ⟨hedges, hdiagnostics⟩ | ⟨hedges, line, hdiagnostics⟩
  · refine ⟨?_, ⟨lines, hdiagnostics.trans hlines⟩, ?_⟩
    · rw [hedges]
      intro edge hedge
      rcases List.mem_append.mp hedge with hedge | hedge
      · exact h.shown edge hedge
      · obtain ⟨call, hcall, rfl⟩ := List.mem_map.mp hedge
        exact ⟨incoming, call, hcall, rfl⟩
    · rw [hedges, hdiagnostics]
      intro hquiet direction hdirection call hcall
      rcases List.mem_append.mp hdirection with hdirection | hdirection
      · exact List.mem_append_left _ (h.whole hquiet direction hdirection call hcall)
      · rw [List.mem_singleton.mp hdirection] at hcall
        exact List.mem_append_right _ (List.mem_map_of_mem hcall)
  · refine ⟨hedges ▸ h.shown, ⟨lines ++ [line], ?_⟩, fun hquiet => ?_⟩
    · rw [hdiagnostics, hlines, List.append_assoc]
    · have hlength := congrArg List.length hquiet
      simp [hdiagnostics, hlines] at hlength

theorem gatherCalls_gathered (service : r.Service graph contents) (current : CodeSymbol)
    (diagnostics : List String) (hcalls : GraphRelation.calls ∈ r.config.relations) :
    Gathered service current diagnostics [false, true]
      (r.gatherCalls graph current diagnostics) := by
  have hnone : Gathered service current diagnostics [] { diagnostics := diagnostics } :=
    ⟨by simp, ⟨[], by simp⟩, by simp⟩
  rw [gatherCalls_eq]
  cases hlookup : graph.callEvidence with
  | none =>
      refine ⟨hnone.shown, hnone.lines, fun _ incoming _ call hcall => ?_⟩
      have hstored := ((service.mem_ranked _ _ _ _).mp (List.mem_of_mem_take hcall)).1
      rw [service.noEvidence hlookup] at hstored
      cases hstored
  | some lookup =>
      simp only [hcalls, ↓reduceIte]
      exact (hnone.lookup hlookup false).lookup hlookup true

theorem gatherCalls_none (graph : GraphAdapter) (current : CodeSymbol)
    (diagnostics : List String) (hcalls : GraphRelation.calls ∉ r.config.relations) :
    r.gatherCalls graph current diagnostics = { diagnostics := diagnostics } := by
  rw [gatherCalls_eq]
  cases graph.callEvidence <;> simp [hcalls]

theorem mem_relevantEdges {raw : List GraphEdge} {evidence : CallEvidence} {edge : GraphEdge} :
    edge ∈ r.relevantEdges raw evidence ↔
      edge.relation ∈ r.config.relations ∧ (edge ∈ raw ∨ edge ∈ evidence.edges) := by
  simp only [relevantEdges, mem_sortBy, List.mem_filter, List.mem_append, decide_eq_true_eq]
  tauto

theorem length_le_relevantEdges {raw : List GraphEdge} {evidence : CallEvidence}
    (hraw : ∀ edge ∈ raw, edge.relation ∈ r.config.relations) :
    raw.length ≤ (r.relevantEdges raw evidence).length := by
  have hkept : raw.filter (fun edge => edge.relation ∈ r.config.relations) = raw :=
    List.filter_eq_self.mpr fun edge hedge => by simpa using hraw edge hedge
  simp only [relevantEdges, length_sortBy, List.filter_append, List.length_append, hkept]
  omega

/-- An edge at a node, in its build, that the cut lookups can give. -/
def Service.At (service : r.Service graph contents) (current : CodeSymbol) (edge : GraphEdge) :
    Prop :=
  service.Shown (current.buildVariant, current.text.id.val) edge ∧
    edge.buildVariant = current.buildVariant

theorem callEdge_build {current : CodeSymbol} {incoming : Bool} {call : Identifier × CallTarget}
    (hcall : call ∈ service.cutCalls current incoming) :
    (callEdge call).buildVariant = current.buildVariant :=
  ((service.mem_ranked _ _ _ _).mp (List.mem_of_mem_take hcall)).2.1

/-- All edges that a node is expanded over are shown ones. -/
theorem relevantEdges_at {current : CodeSymbol} {diagnostics : List String}
    {raw : List GraphEdge} (hraw : raw = (service.listed current.text.id.val
      current.buildVariant).take (r.config.perNodeEdgeBudget + 1)) {edge : GraphEdge}
    (hedge : edge ∈ r.relevantEdges raw (r.gatherCalls graph current diagnostics)) :
    service.At current edge := by
  obtain ⟨hrelation, hedge⟩ := mem_relevantEdges.mp hedge
  rcases hedge with hedge | hedge
  · rw [hraw] at hedge
    have hlisted := (service.mem_listed _ _ _).mp (List.mem_of_mem_take hedge)
    exact ⟨⟨hrelation, .inl hlisted.1⟩, hlisted.2.1⟩
  · by_cases hcalls : GraphRelation.calls ∈ r.config.relations
    · obtain ⟨incoming, call, hcall, rfl⟩ :=
        (gatherCalls_gathered service current diagnostics hcalls).shown edge hedge
      exact ⟨⟨hrelation, .inr ⟨incoming, call, hcall, rfl⟩⟩, callEdge_build hcall⟩
    · rw [gatherCalls_none graph current diagnostics hcalls] at hedge
      cases hedge

/-- Where no budget was exceeded and no lookup failed, the shown edges are all there. -/
theorem mem_relevantEdges_of_quiet {current : CodeSymbol} {diagnostics : List String}
    {raw : List GraphEdge} (hraw : raw = (service.listed current.text.id.val
      current.buildVariant).take (r.config.perNodeEdgeBudget + 1))
    (hquiet : (r.gatherCalls graph current diagnostics).diagnostics = diagnostics)
    (hbudget : (r.relevantEdges raw (r.gatherCalls graph current diagnostics)).length ≤
      r.config.perNodeEdgeBudget) {edge : GraphEdge} (hat : service.At current edge)
    {other : String} (hjoins : Joins edge current.text.id.val other) :
    edge ∈ r.relevantEdges raw (r.gatherCalls graph current diagnostics) := by
  obtain ⟨⟨hrelation, hedge⟩, hbuild⟩ := hat
  refine mem_relevantEdges.mpr ⟨hrelation, ?_⟩
  rcases hedge with hstored | ⟨incoming, call, hcall, rfl⟩
  · left
    have hsome : r.config.relations ≠ [] := List.ne_nil_of_mem hrelation
    have hall : ∀ edge ∈ raw, edge.relation ∈ r.config.relations := by
      intro edge hmem
      rw [hraw] at hmem
      exact ((service.mem_listed _ _ _).mp (List.mem_of_mem_take hmem)).2.2.1.resolve_left hsome
    have hfits := (length_le_relevantEdges hall).trans hbudget
    have hwhole : raw = service.listed current.text.id.val current.buildVariant := by
      rw [hraw, List.take_eq_self_iff]
      rw [hraw, List.length_take] at hfits
      omega
    rw [hwhole, service.mem_listed]
    exact ⟨hstored, hbuild, .inr hrelation, hjoins.imp And.left And.left⟩
  · right
    have hcalls : GraphRelation.calls ∈ r.config.relations := hrelation
    exact (gatherCalls_gathered service current diagnostics hcalls).whole hquiet incoming
      (by cases incoming <;> simp) call hcall

/-- The builds and ends of the edges at `current`. -/
def endsOf (current : CodeSymbol) (edges : List GraphEdge) : List Node :=
  edges.filterMap fun edge =>
    (neighborOf current edge).map fun neighbor => (edge.buildVariant, neighbor)

/-- The entries that one build adds to the prefetched symbols. -/
def Catalog.entries (catalog : r.Catalog) (ends : List Node) (build : String) :
    List (Node × Option CodeSymbol) :=
  ((ends.filter fun entry => entry.1 = build).map Prod.snd).map fun id =>
    ((build, id), catalog.symbolAt build id)

theorem zip_symbols (symbolAt : String → Option CodeSymbol) (build : String) (ids : List String) :
    (ids.zip (ids.map symbolAt)).map (fun (id, symbol) => ((build, id), symbol)) =
      ids.map fun id => ((build, id), symbolAt id) := by
  induction ids with
  | nil => rfl
  | cons id ids ih => simp [ih]

theorem prefetch_eq (catalog : r.Catalog) {current : CodeSymbol} {edges : List GraphEdge}
    {prefetched : List (Node × Option CodeSymbol)}
    (h : r.prefetch current edges = .ok prefetched) (hsome : r.symbolStore.getSymbols ≠ none) :
    prefetched = ((endsOf current edges).map Prod.fst).eraseDups.flatMap
      (catalog.entries (endsOf current edges)) := by
  obtain ⟨lookup, hlookup⟩ := Option.ne_none_iff_exists'.mp hsome
  unfold prefetch at h
  rw [hlookup] at h
  have hfold : ∀ (builds : List String) (found all : List (Node × Option CodeSymbol)),
      builds.foldlM (fun prefetched build => do
        let ids := ((endsOf current edges).filter fun entry => entry.1 = build).map Prod.snd
        let symbols ← lookup ids build
        if symbols.length = ids.length then
          return prefetched ++ (ids.zip symbols).map fun (id, symbol) => ((build, id), symbol)
        else throw (.other "ValueError")) found = (.ok all : Except Raised _) →
      all = found ++ builds.flatMap (catalog.entries (endsOf current edges)) := by
    intro builds
    induction builds with
    | nil =>
        intro found all hall
        cases hall
        simp
    | cons build builds ih =>
        intro found all hall
        rw [List.foldlM_cons] at hall
        obtain ⟨next, hnext, hall⟩ := bind_eq_ok.mp hall
        obtain ⟨symbols, hsymbols, hnext⟩ := bind_eq_ok.mp hnext
        rw [catalog.getSymbols lookup hlookup _ _ _ hsymbols] at hnext
        rw [if_pos (List.length_map _)] at hnext
        cases hnext
        rw [ih _ _ hall, List.flatMap_cons, List.append_assoc]
        rw [zip_symbols]
        rfl
  exact hfold _ [] prefetched h

/-- An end of a prefetched edge is looked up in the catalog. -/
theorem fetchSymbol_eq (catalog : r.Catalog) {current : CodeSymbol} {edges : List GraphEdge}
    {prefetched : List (Node × Option CodeSymbol)}
    (h : r.prefetch current edges = .ok prefetched) {edge : GraphEdge} (hedge : edge ∈ edges)
    {neighbor : String} (hneighbor : neighborOf current edge = some neighbor)
    {symbol : Option CodeSymbol}
    (hfetch : r.fetchSymbol prefetched edge.buildVariant neighbor = .ok symbol) :
    symbol = catalog.symbolAt edge.buildVariant neighbor := by
  have hplain : prefetched = [] → symbol = catalog.symbolAt edge.buildVariant neighbor := by
    rintro rfl
    unfold fetchSymbol at hfetch
    simp only [List.isEmpty_nil, ↓reduceIte] at hfetch
    rcases catalog.getSymbol edge.buildVariant neighbor with hok | ⟨name, herror⟩
    · rw [hok] at hfetch
      cases hfetch
      rfl
    · rw [herror] at hfetch
      cases hfetch
  by_cases hnone : r.symbolStore.getSymbols = none
  · apply hplain
    unfold prefetch at h
    rw [hnone] at h
    cases h
    rfl
  · have hentries := prefetch_eq catalog h hnone
    have hend : (edge.buildVariant, neighbor) ∈ endsOf current edges :=
      List.mem_filterMap.mpr ⟨edge, hedge, by rw [hneighbor]; rfl⟩
    have hmem : ((edge.buildVariant, neighbor), catalog.symbolAt edge.buildVariant neighbor) ∈
        prefetched := by
      rw [hentries, List.mem_flatMap]
      refine ⟨edge.buildVariant, ?_, ?_⟩
      · rw [List.mem_eraseDups]
        exact List.mem_map_of_mem hend
      · simp only [Catalog.entries, List.mem_map, List.mem_filter]
        exact ⟨neighbor, ⟨_, ⟨hend, by simp⟩, rfl⟩, rfl⟩
    have hall : ∀ entry ∈ prefetched, entry.2 = catalog.symbolAt entry.1.1 entry.1.2 := by
      intro entry hentry
      rw [hentries, List.mem_flatMap] at hentry
      obtain ⟨build, -, hentry⟩ := hentry
      obtain ⟨id, -, rfl⟩ := List.mem_map.mp hentry
      rfl
    have hnonempty : prefetched.isEmpty = false := by
      cases prefetched with
      | nil => cases hmem
      | cons _ _ => rfl
    unfold fetchSymbol at hfetch
    rw [hnonempty] at hfetch
    simp only [Bool.false_eq_true, ↓reduceIte, Except.ok.injEq] at hfetch
    obtain ⟨entry, hentry⟩ : ∃ entry, prefetched.reverse.find? (fun entry =>
        entry.1 = (edge.buildVariant, neighbor)) = some entry := by
      rw [← Option.isSome_iff_exists, List.find?_isSome]
      exact ⟨_, List.mem_reverse.mpr hmem, by simp⟩
    have hkey : entry.1 = (edge.buildVariant, neighbor) := by
      simpa using List.find?_some hentry
    rw [hentry, Option.bind_some] at hfetch
    rw [← hfetch, hall entry (List.mem_reverse.mp (List.mem_of_find?_eq_some hentry)), hkey]

end Lookups

end HybridRetriever

end CppContextEngine.Retrieval
