import CppContextEngine.Foundation.WalkReach
import CppContextEngine.Storage.GraphTables

/-!
# Traversals and distances

The routes over the edges of the scope, and what a traversal without a limit
for each node finds of them.
-/

namespace CppContextEngine.Storage.GraphStore

open CppContextEngine.Foundation CppContextEngine.Models

/-- The edge is of the project, of a requested build and of a requested relation. -/
def Filtered (projectId : Nat) (names : List String) (relations : List GraphRelation)
    (row : StoredEdge) : Prop :=
  row.projectId = projectId ∧ row.buildVariant ∈ names ∧ Selected relations row.relation

/-- A hop over an edge in the chosen direction. -/
inductive Hop (edge : IndexedEdge) : GraphDirection → String → String → Prop where
  | forth {direction : GraphDirection} (h : direction ≠ .incoming) :
      Hop edge direction edge.sourceId.val edge.targetId.val
  | back {direction : GraphDirection} (h : direction ≠ .outgoing) :
      Hop edge direction edge.targetId.val edge.sourceId.val

/-- The routes of a length from a symbol. -/
inductive Route (store : GraphStore) (projectId : Nat) (names : List String)
    (relations : List GraphRelation) (direction : GraphDirection) (symbolId : String) :
    Nat → String → Prop where
  | here : Route store projectId names relations direction symbolId 0 symbolId
  | hop {length : Nat} {current next : String} {row : StoredEdge}
      (route : Route store projectId names relations direction symbolId length current)
      (stored : row ∈ store.edges) (filtered : Filtered projectId names relations row)
      (hop : Hop row.toIndexedEdge direction current next) :
      Route store projectId names relations direction symbolId (length + 1) next

section Routes

variable {store : GraphStore} {projectId : Nat} {names : List String}
  {relations : List GraphRelation} {direction : GraphDirection} {symbolId : String}

theorem hop_iff {edge : IndexedEdge} {current next : String} :
    Hop edge direction current next ↔
      Touches direction current edge ∧ adjacent direction current edge = next := by
  constructor
  · rintro (hdirection | hdirection)
    · cases direction with
      | outgoing => simp [Touches, adjacent]
      | incoming => exact absurd rfl hdirection
      | both => simp [Touches, adjacent]
    · cases direction with
      | outgoing => exact absurd rfl hdirection
      | incoming => simp [Touches, adjacent]
      | both =>
          refine ⟨.inr ⟨by simp, rfl⟩, ?_⟩
          unfold adjacent
          simp only
          split
          · rename_i hloop
            exact hloop.symm
          · rfl
  · rintro ⟨htouches, rfl⟩
    cases direction with
    | outgoing =>
        obtain rfl : edge.sourceId.val = current := by simpa [Touches] using htouches
        exact .forth (by simp)
    | incoming =>
        obtain rfl : edge.targetId.val = current := by simpa [Touches] using htouches
        exact .back (by simp)
    | both =>
        unfold adjacent
        simp only
        split
        · rename_i hsource
          subst hsource
          exact .forth (by simp)
        · rename_i hsource
          obtain rfl : edge.targetId.val = current := by simpa [Touches, hsource] using htouches
          exact .back (by simp)

theorem listed_iff {current : String} {edge : IndexedEdge} :
    edge ∈ store.endpointEdges projectId names relations direction current ↔
      ∃ row ∈ store.edges, Filtered projectId names relations row ∧
        Touches direction current row.toIndexedEdge ∧ row.toIndexedEdge = edge := by
  rw [mem_endpointEdges]
  refine exists_congr fun row => and_congr_right fun _ => ?_
  simp only [Filtered]
  tauto

/-- A route is a path over the rows of its nodes. -/
theorem route_iff_path {length : Nat} {node : String} :
    Route store projectId names relations direction symbolId length node ↔
      Walk.Path (adjacent direction)
        (store.endpointEdges projectId names relations direction) symbolId length node := by
  constructor
  · intro h
    induction h with
    | here => exact .refl
    | hop route stored filtered hop ih =>
        obtain ⟨htouches, rfl⟩ := hop_iff.mp hop
        exact .step ih (listed_iff.mpr ⟨_, stored, filtered, htouches, rfl⟩)
  · intro h
    induction h with
    | refl => exact .here
    | step path listed ih =>
        obtain ⟨row, hrow, hfiltered, htouches, rfl⟩ := listed_iff.mp listed
        exact .hop ih hrow hfiltered (hop_iff.mpr ⟨htouches, rfl⟩)

/-- Rows of one traversal with one identifier are one edge. -/
theorem listed_unique {current other : String} {edge edge' : IndexedEdge}
    (h : edge ∈ store.endpointEdges projectId names relations direction current)
    (h' : edge' ∈ store.endpointEdges projectId names relations direction other)
    (hid : edge.id = edge'.id) : edge = edge' := by
  obtain ⟨row, hrow, hfiltered, -, rfl⟩ := listed_iff.mp h
  obtain ⟨row', hrow', hfiltered', -, rfl⟩ := listed_iff.mp h'
  exact congrArg _ (edge_unique hrow hrow' (hfiltered.1.trans hfiltered'.1.symm) hid)

/-- The edges of a traversal without limits are those with an end nearer than its depth. -/
theorem mem_traverse_iff {depth : Nat} {edge : IndexedEdge} :
    edge ∈ store.traverse projectId names relations depth direction none none symbolId ↔
      ∃ row ∈ store.edges, Filtered projectId names relations row ∧ row.toIndexedEdge = edge ∧
        ∃ node, Touches direction node edge ∧ ∃ length < depth,
          Route store projectId names relations direction symbolId length node := by
  have hdone := (@walkOf_done store projectId names relations depth direction none none
    symbolId).resolve_right (Walk.not_full_none _)
  have hfound (key : String) := @Walk.id_mem_run_iff _ _ _ _ _ _ _ _ _ _ _ hdone key
  have hlisted : edge ∈ store.traverse projectId names relations depth direction none none
      symbolId → ∃ node, edge ∈ store.endpointEdges projectId names relations direction node := by
    intro h
    exact (Walk.mem_found_run _ h).resolve_left (by simp [Walk.start])
  constructor
  · intro h
    obtain ⟨origin, horigin⟩ := hlisted h
    obtain ⟨node, ⟨length, hlength, hpath⟩, hkey⟩ := (hfound edge.id).mp (List.mem_map_of_mem h)
    obtain ⟨edge', hedge', hid⟩ := List.mem_map.mp hkey
    obtain rfl := listed_unique horigin hedge' hid.symm
    obtain ⟨row, hrow, hfiltered, htouches, rfl⟩ := listed_iff.mp hedge'
    exact ⟨row, hrow, hfiltered, rfl, node, htouches, length, hlength,
      route_iff_path.mpr hpath⟩
  · rintro ⟨row, hrow, hfiltered, rfl, node, htouches, length, hlength, hroute⟩
    have hrows := listed_iff.mpr ⟨row, hrow, hfiltered, htouches, rfl⟩
    have hkey := (hfound row.id).mpr ⟨node, ⟨length, hlength, route_iff_path.mp hroute⟩,
      List.mem_map_of_mem hrows⟩
    obtain ⟨edge, hedge, hid⟩ := List.mem_map.mp hkey
    obtain ⟨origin, horigin⟩ := (Walk.mem_found_run _ hedge).resolve_left (by simp [Walk.start])
    rwa [listed_unique hrows horigin hid.symm]

/-- A limit of the edges leaves the first ones. -/
theorem traverse_take (depth maxEdges : Nat) (perNodeLimit : Option Nat) :
    store.traverse projectId names relations depth direction (some maxEdges) perNodeLimit
        symbolId =
      (store.traverse projectId names relations depth direction none perNodeLimit
        symbolId).take maxEdges :=
  Walk.run_take _ _ (Nat.zero_le _)

/-- `neighbors` is exact breadth-first reachability, also under a limit of the edges. -/
theorem neighbors_exact (store : GraphStore) (symbolId : String)
    (relations : List GraphRelation) (depth : Nat) (direction : GraphDirection)
    (root : Option String) (names : List String) {projectId : Nat} (hdepth : 1 ≤ depth)
    (hproject : store.projectIdOf root = .ok projectId) :
    ∃ edges, store.neighbors symbolId relations depth direction none none root names =
        .ok edges ∧
      (edges.map IndexedEdge.id).Nodup ∧
      (∀ edge, edge ∈ edges ↔ ∃ row ∈ store.edges,
        Filtered projectId names relations row ∧ row.toIndexedEdge = edge ∧
          ∃ node, Touches direction node edge ∧ ∃ length ≤ depth - 1,
            Route store projectId names relations direction symbolId length node) ∧
      ∀ maxEdges, 1 ≤ maxEdges → ∃ cut,
        store.neighbors symbolId relations depth direction (some maxEdges) none root names =
            .ok cut ∧
          (cut.map IndexedEdge.id).Nodup ∧ cut ⊆ edges ∧
          cut.length = min maxEdges edges.length := by
  have hok (maxEdges : Option Nat) (hmax : ∀ limit ∈ maxEdges, 1 ≤ limit) :
      store.neighbors symbolId relations depth direction maxEdges none root names =
        .ok (store.traverse projectId names relations depth direction maxEdges none
          symbolId) := by
    unfold neighbors
    rw [if_neg, hproject]
    · rfl
    · simp only [not_or, not_exists, not_and, Nat.not_lt]
      exact ⟨hdepth, hmax, by simp⟩
  refine ⟨_, hok none (by simp), traverse_nodup none none, fun edge => ?_, fun maxEdges hmax => ?_⟩
  · have hbound (length : Nat) : length < depth ↔ length ≤ depth - 1 := by omega
    simp only [mem_traverse_iff, hbound]
  · refine ⟨_, hok (some maxEdges) (by simpa using hmax), traverse_nodup _ none, ?_, ?_⟩
    · rw [traverse_take]
      exact List.take_subset _ _
    · rw [traverse_take, List.length_take]

end Routes

/-- A symbol that calls itself. -/
def selfLoop : GraphStore where
  projectRoot := none
  buildScope := BuildScope.default
  projects := [⟨1, "/project"⟩]
  symbols := [{
    projectId := 1
    text := {
      id := ⟨"f", by decide⟩
      qualifiedName := ⟨"f", by decide⟩
      kind := .function
      span := .start "f.cpp" }
    buildConfigurationId := "" }]
  variants := []
  variantKeys := SymbolStore.variantKeys_nil
  edges := [{
    sourceId := ⟨"f", by decide⟩
    targetId := ⟨"f", by decide⟩
    relation := .calls
    id := "loop"
    projectId := 1 }]
  callsites := []
  callTargets := []
  edgeKeys := by decide
  callsiteKeys := by decide
  callTargetKeys := by decide
  snapshotIds := by decide
  variantIds := by decide
  variantSymbols := by decide
  edgeSymbols := by decide
  ownerSymbols := by decide
  targetSymbols := by decide

theorem neighbors_exact_selfLoop : ∃ edges,
    selfLoop.neighbors "f" [.calls] 2 .both none none none ["default"] = .ok edges ∧
      (edges.map IndexedEdge.id).Nodup ∧
      (∀ edge, edge ∈ edges ↔ ∃ row ∈ selfLoop.edges,
        Filtered 1 ["default"] [.calls] row ∧ row.toIndexedEdge = edge ∧
          ∃ node, Touches .both node edge ∧ ∃ length ≤ 2 - 1,
            Route selfLoop 1 ["default"] [.calls] .both "f" length node) ∧
      ∀ maxEdges, 1 ≤ maxEdges → ∃ cut,
        selfLoop.neighbors "f" [.calls] 2 .both (some maxEdges) none none ["default"] =
            .ok cut ∧
          (cut.map IndexedEdge.id).Nodup ∧ cut ⊆ edges ∧
          cut.length = min maxEdges edges.length :=
  neighbors_exact selfLoop "f" [.calls] 2 .both none ["default"] (by decide) rfl

end CppContextEngine.Storage.GraphStore
