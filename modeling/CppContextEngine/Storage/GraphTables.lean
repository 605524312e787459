import CppContextEngine.Foundation.BoundedWalk
import CppContextEngine.Models.Calls
import CppContextEngine.Storage.SymbolTables

/-!
# Edges and calls in the database

The edges between symbols with the walk over them, and the callsites with
their targets.  Both queries take a limit; the walk has one for each node and
one for the whole answer.
-/

namespace CppContextEngine.Storage

open CppContextEngine.Foundation CppContextEngine.Models

/-- A `GraphEdge` with its identifier and its unit. -/
structure IndexedEdge extends GraphEdge where
  id : String := ""
  translationUnitId : String := ""
  buildConfigurationId : String := ""
  deriving DecidableEq

/-- A row of the view `edges`. -/
structure StoredEdge extends IndexedEdge where
  projectId : Nat
  deriving DecidableEq

/-- A row of `callsites`. -/
structure StoredCallSite where
  projectId : Nat
  id : String
  ownerSymbolId : Identifier
  dispatchKind : CallDispatchKind
  expansionSpan : SourceSpan
  targetSetComplete : Bool
  unresolvedReason : String
  translationUnitId : String
  buildConfigurationId : String
  buildVariant : String
  deriving DecidableEq

/-- A row of `call_targets`. -/
structure StoredCallTarget where
  projectId : Nat
  id : String
  callsiteId : String
  targetSymbolId : Identifier
  certainty : CallTargetCertainty
  confidence : Rat
  confidenceReason : String
  derivation : String
  translationUnitId : String
  buildConfigurationId : String
  buildVariant : String
  deriving DecidableEq

/-- The tables of one database that the graph queries read. -/
structure GraphStore extends SymbolStore where
  edges : List StoredEdge
  callsites : List StoredCallSite
  callTargets : List StoredCallTarget
  /-- `UNIQUE (project_id, id)` -/
  edgeKeys : (edges.map fun row => (row.projectId, row.id)).Nodup
  /-- `PRIMARY KEY (project_id, id)` -/
  callsiteKeys : (callsites.map fun row => (row.projectId, row.id)).Nodup
  callTargetKeys : (callTargets.map fun row => (row.projectId, row.id)).Nodup
  /-- A snapshot is of the symbol that its row names. -/
  snapshotIds : ∀ row ∈ variants, row.text.id.val = row.symbolId
  /-- The identifier of a variant is a hash with a prefix of its own. -/
  variantIds : ∀ row ∈ variants, ∀ symbol ∈ symbols, row.projectId = symbol.projectId →
    row.id ≠ symbol.text.id.val
  /-- `REFERENCES symbols(project_id, id)` -/
  variantSymbols : ∀ row ∈ variants,
    ∃ symbol ∈ symbols, symbol.projectId = row.projectId ∧ symbol.text.id.val = row.symbolId
  edgeSymbols : ∀ row ∈ edges, ∀ id ∈ [row.sourceId, row.targetId],
    ∃ symbol ∈ symbols, symbol.projectId = row.projectId ∧ symbol.text.id = id
  ownerSymbols : ∀ row ∈ callsites,
    ∃ symbol ∈ symbols, symbol.projectId = row.projectId ∧ symbol.text.id = row.ownerSymbolId
  targetSymbols : ∀ row ∈ callTargets,
    ∃ symbol ∈ symbols, symbol.projectId = row.projectId ∧ symbol.text.id = row.targetSymbolId

/-- Traversal direction relative to the symbol at each graph hop. -/
inductive GraphDirection where
  | outgoing
  | incoming
  | both
  deriving DecidableEq, Repr

namespace GraphStore

variable (store : GraphStore)

/-! ## `get_symbol` -/

/-- `ORDER BY is_definition DESC, build_variant, translation_unit_id, symbol_id` -/
def definitionOrder (row : SnapshotRow) : Bool ×ₗ List String :=
  toLex (!row.isDefinition, [row.buildVariant, row.translationUnitId, row.symbolId])

/-- The preferred variant of a symbol, or the variant with the identifier. -/
def variantRow (projectId : Nat) (names : List String) (symbolId : String) :
    Option SnapshotRow :=
  (sortBy definitionOrder (store.variants.filter fun row =>
    row.projectId = projectId ∧ (row.symbolId = symbolId ∨ row.id = symbolId) ∧
      row.buildVariant ∈ names)).head?

/-- The query of `get_symbol` in one project. -/
def findSymbol (projectId : Nat) (names : List String) (symbolId : String) :
    Option CodeSymbol :=
  match store.variantRow projectId names symbolId with
  | some row => some row.symbol
  | none =>
      if defaultBuildVariant ∈ names then
        (store.canonicalRow projectId symbolId).map SymbolRow.symbol
      else none

/-- `get_symbol` -/
def getSymbol (symbolId : String) (root : Option String) (names : List String) :
    Except StoreError (Option CodeSymbol) :=
  match store.projectIdOf root with
  | .error .keyError => .ok none
  | .error error => .error error
  | .ok projectId => .ok (store.findSymbol projectId names symbolId)

/-! ## `neighbors` -/

/-- `ORDER BY relation, source_id, target_id, build_variant, id` -/
def edgeOrder (edge : IndexedEdge) : List String :=
  [StrEnum.value edge.relation, edge.sourceId.val, edge.targetId.val, edge.buildVariant, edge.id]

/-- The ends that a direction asks for. -/
def Touches (direction : GraphDirection) (current : String) (edge : IndexedEdge) : Prop :=
  direction ≠ .incoming ∧ edge.sourceId.val = current ∨
    direction ≠ .outgoing ∧ edge.targetId.val = current

instance (direction : GraphDirection) (current : String) (edge : IndexedEdge) :
    Decidable (Touches direction current edge) :=
  inferInstanceAs (Decidable (_ ∨ _))

/-- An empty set of relations, like none, filters nothing. -/
def Selected (relations : List GraphRelation) (relation : GraphRelation) : Prop :=
  relations = [] ∨ relation ∈ relations

instance (relations : List GraphRelation) (relation : GraphRelation) :
    Decidable (Selected relations relation) :=
  inferInstanceAs (Decidable (_ ∨ _))

/-- The query of one node, without its `LIMIT`. -/
def endpointEdges (projectId : Nat) (names : List String) (relations : List GraphRelation)
    (direction : GraphDirection) (current : String) : List IndexedEdge :=
  sortBy edgeOrder ((store.edges.filter fun row =>
    row.projectId = projectId ∧ row.buildVariant ∈ names ∧
      Touches direction current row.toIndexedEdge ∧
      Selected relations row.relation).map StoredEdge.toIndexedEdge)

def adjacent (direction : GraphDirection) (current : String) (edge : IndexedEdge) : String :=
  match direction with
  | .outgoing => edge.targetId.val
  | .incoming => edge.sourceId.val
  | .both => if edge.sourceId.val = current then edge.targetId.val else edge.sourceId.val

/-- `LIMIT ?`, when there is one. -/
def limitRows {α : Type} (limit : Option Nat) (rows : List α) : List α :=
  match limit with
  | none => rows
  | some limit => rows.take limit

/-- The loop of one project; the fuel is the number of ends of edges. -/
def walkOf (projectId : Nat) (names : List String) (relations : List GraphRelation)
    (depth : Nat) (direction : GraphDirection) (maxEdges perNodeLimit : Option Nat)
    (symbolId : String) : Walk String IndexedEdge :=
  Walk.run IndexedEdge.id (adjacent direction)
    (fun current => limitRows perNodeLimit
      (store.endpointEdges projectId names relations direction current))
    maxEdges depth (2 * store.edges.length + 2) (Walk.start symbolId)

/-- The edges that a traversal finds. -/
def traverse (projectId : Nat) (names : List String) (relations : List GraphRelation)
    (depth : Nat) (direction : GraphDirection) (maxEdges perNodeLimit : Option Nat)
    (symbolId : String) : List IndexedEdge :=
  (store.walkOf projectId names relations depth direction maxEdges perNodeLimit symbolId).found

/-- `neighbors` -/
def neighbors (symbolId : String) (relations : List GraphRelation) (depth : Nat)
    (direction : GraphDirection) (maxEdges perNodeLimit : Option Nat) (root : Option String)
    (names : List String) : Except StoreError (List IndexedEdge) := do
  if depth < 1 ∨ (∃ limit ∈ maxEdges, limit < 1) ∨ ∃ limit ∈ perNodeLimit, limit < 1 then
    .error .valueError
  else
    let projectId ← store.projectIdOf root
    .ok (store.traverse projectId names relations depth direction maxEdges perNodeLimit symbolId)

/-! ## `call_evidence` -/

/-- A callsite joined with one of its targets. -/
structure CallEvidence where
  site : StoredCallSite
  target : StoredCallTarget
  deriving DecidableEq

/-- The certain targets first, then by confidence and by place. -/
def evidenceOrder (row : CallEvidence) :
    Bool ×ₗ Rat ×ₗ List String ×ₗ Nat ×ₗ Nat ×ₗ List String :=
  toLex (row.target.certainty ≠ .certain, toLex (-row.target.confidence,
    toLex ([row.site.buildVariant, row.site.expansionSpan.path],
      toLex (row.site.expansionSpan.startLine, toLex (row.site.expansionSpan.startColumn,
        [row.site.id, row.target.targetSymbolId.val, row.target.id])))))

/-- The symbol that the query asks for: a target's or the caller. -/
def CallEvidence.endpoint (incoming : Bool) (row : CallEvidence) : String :=
  if incoming then row.target.targetSymbolId.val else row.site.ownerSymbolId.val

/-- The query of `call_evidence`, without its `LIMIT`. -/
def evidenceRows (projectId : Nat) (names : List String) (symbolId : String) (incoming : Bool) :
    List CallEvidence :=
  sortBy evidenceOrder
    ((store.callsites.flatMap fun site =>
      (store.callTargets.filter fun target =>
        target.projectId = site.projectId ∧ target.callsiteId = site.id).map
          (CallEvidence.mk site)).filter fun row =>
        row.site.projectId = projectId ∧ row.endpoint incoming = symbolId ∧
          row.site.buildVariant ∈ names)

/-- The items of a bounded answer, and whether it was cut. -/
structure BoundedResult (α : Type) where
  items : List α
  truncated : Bool

/-- `call_evidence` -/
def callEvidence (symbolId : String) (incoming : Bool) (root : Option String)
    (names : List String) (limit : Nat) : Except StoreError (BoundedResult CallEvidence) := do
  if ¬ (1 ≤ limit ∧ limit ≤ 10000) then .error .valueError
  else
    let projectId ← store.projectIdOf root
    let rows := (store.evidenceRows projectId names symbolId incoming).take (limit + 1)
    .ok { items := rows.take limit, truncated := limit < rows.length }

/-! ## Lookups -/

variable {store}

theorem canonicalRow_id {projectId : Nat} {symbolId : String} {row : SymbolRow}
    (h : store.canonicalRow projectId symbolId = some row) : row.text.id.val = symbolId :=
  lastBy_key (fun row : SymbolRow => row.text.id.val) h

theorem variantRow_mem {projectId : Nat} {names : List String} {symbolId : String}
    {row : SnapshotRow} (h : store.variantRow projectId names symbolId = some row) :
    row ∈ store.variants ∧ row.projectId = projectId ∧
      (row.symbolId = symbolId ∨ row.id = symbolId) ∧ row.buildVariant ∈ names := by
  simpa [mem_sortBy] using List.mem_of_head? h

theorem variantRow_isSome {projectId : Nat} {names : List String} {symbolId : String}
    {row : SnapshotRow} (hrow : row ∈ store.variants) (hproject : row.projectId = projectId)
    (hid : row.symbolId = symbolId) (hname : row.buildVariant ∈ names) :
    ∃ found, store.variantRow projectId names symbolId = some found := by
  have hmem : row ∈ sortBy definitionOrder (store.variants.filter fun row =>
      row.projectId = projectId ∧ (row.symbolId = symbolId ∨ row.id = symbolId) ∧
        row.buildVariant ∈ names) := by
    simp [hrow, hproject, hid, hname]
  unfold variantRow
  cases hrows : sortBy definitionOrder (store.variants.filter fun row =>
      row.projectId = projectId ∧ (row.symbolId = symbolId ∨ row.id = symbolId) ∧
        row.buildVariant ∈ names) with
  | nil =>
      rw [hrows] at hmem
      cases hmem
  | cons found rest => exact ⟨found, rfl⟩

/-- The identifier names a symbol of the project. -/
def Canonical (store : GraphStore) (projectId : Nat) (symbolId : String) : Prop :=
  ∃ symbol ∈ store.symbols, symbol.projectId = projectId ∧ symbol.text.id.val = symbolId

/-- A canonical identifier finds its own symbol only. -/
theorem findSymbol_id {projectId : Nat} {names : List String} {symbolId : String}
    {symbol : CodeSymbol} (hcanonical : Canonical store projectId symbolId)
    (h : store.findSymbol projectId names symbolId = some symbol) :
    symbol.text.id.val = symbolId := by
  unfold findSymbol at h
  split at h
  · rename_i row hrow
    obtain ⟨hmem, hproject, hid, -⟩ := variantRow_mem hrow
    obtain ⟨canonical, hmem', hproject', hid'⟩ := hcanonical
    cases h
    rcases hid with hid | hid
    · exact (store.snapshotIds row hmem).trans hid
    · exact absurd (hid.trans hid'.symm)
        (store.variantIds row hmem canonical hmem' (hproject.trans hproject'.symm))
  · split at h
    · obtain ⟨row, hrow, rfl⟩ := Option.map_eq_some_iff.mp h
      exact canonicalRow_id hrow
    · cases h

/-- What a lookup finds is found again under its canonical identifier. -/
theorem findSymbol_again {projectId : Nat} {names : List String} {symbolId : String}
    {symbol : CodeSymbol} (h : store.findSymbol projectId names symbolId = some symbol) :
    Canonical store projectId symbol.text.id.val ∧
      ∃ found, store.findSymbol projectId names symbol.text.id.val = some found := by
  unfold findSymbol at h
  split at h
  · rename_i row hrow
    obtain ⟨hmem, hproject, -, hname⟩ := variantRow_mem hrow
    cases h
    have hid : row.symbol.text.id.val = row.symbolId := store.snapshotIds row hmem
    obtain ⟨canonical, hcanonical, hproject', hid'⟩ := store.variantSymbols row hmem
    rw [hid]
    refine ⟨⟨canonical, hcanonical, hproject'.trans hproject, hid'⟩, ?_⟩
    obtain ⟨found, hfound⟩ := variantRow_isSome hmem hproject rfl hname
    exact ⟨found.symbol, by simp [findSymbol, hfound]⟩
  · rename_i hnone
    split at h
    · rename_i hdefault
      obtain ⟨row, hrow, rfl⟩ := Option.map_eq_some_iff.mp h
      have hid : row.symbol.text.id.val = symbolId := canonicalRow_id hrow
      have hmem := mem_of_lastBy _ hrow
      simp only [List.mem_filter, decide_eq_true_eq] at hmem
      rw [hid]
      refine ⟨⟨row, hmem.1, hmem.2, hid⟩, row.symbol, ?_⟩
      simp [findSymbol, hnone, hdefault, hrow]
    · cases h

theorem getSymbol_ok {root : Option String} {projectId : Nat}
    (hproject : store.projectIdOf root = .ok projectId) (symbolId : String)
    (names : List String) :
    store.getSymbol symbolId root names = .ok (store.findSymbol projectId names symbolId) := by
  simp [getSymbol, hproject]

/-! ## Traversals -/

theorem mem_endpointEdges {projectId : Nat} {names : List String}
    {relations : List GraphRelation} {direction : GraphDirection} {current : String}
    {edge : IndexedEdge} :
    edge ∈ store.endpointEdges projectId names relations direction current ↔
      ∃ row ∈ store.edges, row.projectId = projectId ∧ row.buildVariant ∈ names ∧
        Touches direction current row.toIndexedEdge ∧ Selected relations row.relation ∧
        row.toIndexedEdge = edge := by
  simp [endpointEdges, and_assoc]

/-- Edges of one project have identifiers of their own. -/
theorem edge_unique {row other : StoredEdge} (hrow : row ∈ store.edges)
    (hother : other ∈ store.edges) (hproject : row.projectId = other.projectId)
    (hid : row.id = other.id) : row = other :=
  List.inj_on_of_nodup_map store.edgeKeys hrow hother (by simp [hproject, hid])

theorem endpointEdges_nodup (projectId : Nat) (names : List String)
    (relations : List GraphRelation) (direction : GraphDirection) (current : String) :
    ((store.endpointEdges projectId names relations direction current).map
      IndexedEdge.id).Nodup := by
  rw [endpointEdges, ((sortBy_perm edgeOrder _).map IndexedEdge.id).nodup_iff, List.map_map]
  have hrows : (store.edges.filter fun row =>
      row.projectId = projectId ∧ row.buildVariant ∈ names ∧
        Touches direction current row.toIndexedEdge ∧ Selected relations row.relation).Nodup :=
    (List.Nodup.of_map _ store.edgeKeys).filter _
  refine List.Nodup.map_on (fun row hrow other hother hid => ?_) hrows
  simp only [List.mem_filter, decide_eq_true_eq] at hrow hother
  exact edge_unique hrow.1 hother.1 (hrow.2.1.trans hother.2.1.symm) hid

/-- In one direction every edge is listed at one end. -/
theorem endpointEdges_apart {direction : GraphDirection} (hdirection : direction ≠ .both)
    (projectId : Nat) (names : List String) (relations : List GraphRelation) :
    Walk.Apart IndexedEdge.id
      (store.endpointEdges projectId names relations direction) := by
  intro node other edge hedge edge' hedge' hid
  obtain ⟨row, hrow, hproject, -, htouches, -, rfl⟩ := mem_endpointEdges.mp hedge
  obtain ⟨row', hrow', hproject', -, htouches', -, rfl⟩ := mem_endpointEdges.mp hedge'
  obtain rfl := edge_unique hrow hrow' (hproject.trans hproject'.symm) hid
  cases direction with
  | outgoing => simp_all [Touches]
  | incoming => simp_all [Touches]
  | both => exact absurd rfl hdirection

variable (store)

/-- The ends of all edges, after the symbol that a traversal starts from. -/
def ends (symbolId : String) : List String :=
  symbolId :: store.edges.flatMap fun row => [row.sourceId.val, row.targetId.val]

theorem length_ends (symbolId : String) :
    (store.ends symbolId).length = 2 * store.edges.length + 1 := by
  have hlength : (store.edges.flatMap fun row => [row.sourceId.val, row.targetId.val]).length =
      2 * store.edges.length := by
    induction store.edges with
    | nil => rfl
    | cons row rows ih => simp only [List.flatMap_cons, List.length_append, ih, List.length_cons,
        List.length_nil]; omega
  simp [ends, hlength]

variable {store}

theorem mem_limitRows {α : Type} {limit : Option Nat} {rows : List α} {row : α}
    (h : row ∈ limitRows limit rows) : row ∈ rows := by
  cases limit with
  | none => exact h
  | some limit => exact List.mem_of_mem_take h

theorem adjacent_mem_ends {projectId : Nat} {names : List String}
    {relations : List GraphRelation} {direction : GraphDirection} {current symbolId : String}
    {edge : IndexedEdge}
    (h : edge ∈ store.endpointEdges projectId names relations direction current) :
    adjacent direction current edge ∈ store.ends symbolId := by
  obtain ⟨row, hrow, -, -, -, -, rfl⟩ := mem_endpointEdges.mp h
  apply List.mem_cons_of_mem
  refine List.mem_flatMap.mpr ⟨row, hrow, ?_⟩
  cases direction with
  | outgoing => simp [adjacent]
  | incoming => simp [adjacent]
  | both =>
      unfold adjacent
      simp only
      split <;> simp

/-- The fuel is enough: the loop ends at an empty queue or at the limit of the edges. -/
theorem walkOf_done (projectId : Nat) (names : List String) (relations : List GraphRelation)
    (depth : Nat) (direction : GraphDirection) (maxEdges perNodeLimit : Option Nat)
    (symbolId : String) :
    (store.walkOf projectId names relations depth direction maxEdges perNodeLimit
        symbolId).frontier = [] ∨
      (store.walkOf projectId names relations depth direction maxEdges perNodeLimit
        symbolId).Full maxEdges := by
  have hall (current : String) : ∀ edge ∈ limitRows perNodeLimit
      (store.endpointEdges projectId names relations direction current),
      adjacent direction current edge ∈ store.ends symbolId :=
    fun edge hedge => adjacent_mem_ends (mem_limitRows hedge)
  have hwithin : Walk.Within (store.ends symbolId)
      (Walk.start symbolId : Walk String IndexedEdge) :=
    ⟨List.nodup_singleton _, by simp [Walk.start, ends]⟩
  have hfuel : (Walk.start symbolId : Walk String IndexedEdge).frontier.length +
      (store.ends symbolId).length ≤
        2 * store.edges.length + 2 +
          (Walk.start symbolId : Walk String IndexedEdge).visited.length := by
    simp only [Walk.start, length_ends, List.length_singleton]
    omega
  have hdone : (store.walkOf projectId names relations depth direction none perNodeLimit
      symbolId).frontier = [] := Walk.run_done hall _ hwithin hfuel
  cases maxEdges with
  | none => exact .inl hdone
  | some limit =>
      by_cases hfull : (store.walkOf projectId names relations depth direction (some limit)
          perNodeLimit symbolId).Full (some limit)
      · exact .inr hfull
      · left
        rw [Walk.full_some, Nat.not_le] at hfull
        unfold walkOf at hfull ⊢
        rw [Walk.run_under _ _ hfull]
        exact hdone

section Traversals

variable {projectId : Nat} {names : List String} {relations : List GraphRelation} {depth : Nat}
  {direction : GraphDirection} {symbolId : String} {limit : Nat}

theorem traverse_nodup (maxEdges perNodeLimit : Option Nat) :
    ((store.traverse projectId names relations depth direction maxEdges perNodeLimit
      symbolId).map IndexedEdge.id).Nodup :=
  Walk.nodup_run _ List.nodup_nil

/-- A traversal below the limit of its edges is the one without. -/
theorem traverse_under {maxEdges : Nat} {perNodeLimit : Option Nat}
    (h : (store.traverse projectId names relations depth direction (some maxEdges) perNodeLimit
        symbolId).length < maxEdges ∨
      (store.traverse projectId names relations depth direction none perNodeLimit
        symbolId).length < maxEdges) :
    store.traverse projectId names relations depth direction (some maxEdges) perNodeLimit
        symbolId =
      store.traverse projectId names relations depth direction none perNodeLimit symbolId := by
  unfold traverse walkOf at h ⊢
  rcases h with h | h
  · rw [Walk.run_under _ _ h]
  · rw [Walk.run_below _ _ h]

/-- A traversal with fewer edges than a node may list has no limit at any node. -/
theorem traverse_few
    (h : (store.traverse projectId names relations depth direction none (some limit)
      symbolId).length < limit) :
    store.traverse projectId names relations depth direction none (some limit) symbolId =
      store.traverse projectId names relations depth direction none none symbolId := by
  unfold traverse walkOf at h ⊢
  simp only [limitRows] at h ⊢
  rw [Walk.run_take_under (fun node => endpointEdges_nodup projectId names relations direction
    node) _ _ h]

/-- One more row to each node tells, in one direction or at one level, what a limit hides. -/
theorem traverse_probe (hshape : direction ≠ .both ∨ depth = 1)
    (h : (store.traverse projectId names relations depth direction none (some (limit + 1))
        symbolId).map IndexedEdge.id ⊆
      (store.traverse projectId names relations depth direction none (some limit)
        symbolId).map IndexedEdge.id) :
    store.traverse projectId names relations depth direction none (some limit) symbolId =
      store.traverse projectId names relations depth direction none none symbolId := by
  have hrows (node : String) : ((store.endpointEdges projectId names relations direction
      node).map IndexedEdge.id).Nodup := endpointEdges_nodup _ _ _ _ _
  unfold traverse walkOf at h ⊢
  simp only [limitRows] at h ⊢
  rcases hshape with hdirection | rfl
  · have htidy : Walk.Tidy IndexedEdge.id
        (store.endpointEdges projectId names relations direction) (Walk.start symbolId) :=
      ⟨List.nodup_singleton _, fun _ h => h, fun _ _ _ _ => by simp [Walk.start]⟩
    rw [Walk.run_probe hrows (endpointEdges_apart hdirection projectId names relations) _ htidy h]
  · exact Walk.run_probe_one hrows symbolId _ h

end Traversals

/-! ## Evidence -/

theorem mem_evidenceRows {projectId : Nat} {names : List String} {symbolId : String}
    {incoming : Bool} {row : CallEvidence} :
    row ∈ store.evidenceRows projectId names symbolId incoming ↔
      row.site ∈ store.callsites ∧ row.target ∈ store.callTargets ∧
        row.target.projectId = row.site.projectId ∧ row.target.callsiteId = row.site.id ∧
        row.site.projectId = projectId ∧ row.endpoint incoming = symbolId ∧
        row.site.buildVariant ∈ names := by
  obtain ⟨site, target⟩ := row
  simp [evidenceRows, and_assoc]

/-- Evidence of one project has identifiers of its own. -/
theorem evidence_unique {projectId : Nat} {names : List String} {symbolId : String}
    {incoming incoming' : Bool} {row other : CallEvidence}
    (hrow : row ∈ store.evidenceRows projectId names symbolId incoming)
    (hother : other ∈ store.evidenceRows projectId names symbolId incoming')
    (hid : row.target.id = other.target.id) : row = other := by
  obtain ⟨hsite, htarget, hproject, hcallsite, hsiteProject, -, -⟩ := mem_evidenceRows.mp hrow
  obtain ⟨hsite', htarget', hproject', hcallsite', hsiteProject', -, -⟩ :=
    mem_evidenceRows.mp hother
  have htargets : row.target = other.target := by
    refine List.inj_on_of_nodup_map store.callTargetKeys htarget htarget' ?_
    simp [hproject, hproject', hsiteProject, hsiteProject', hid]
  have hsites : row.site = other.site := by
    refine List.inj_on_of_nodup_map store.callsiteKeys hsite hsite' ?_
    simp [hsiteProject, hsiteProject', ← hcallsite, ← hcallsite', htargets]
  obtain ⟨site, target⟩ := row
  cases htargets
  cases hsites
  rfl

end GraphStore

end CppContextEngine.Storage
