import CppContextEngine.Foundation.NearestFirst
import Mathlib.Data.List.Lex
import Mathlib.Data.String.Basic

/-!
# The closure of a deep request

`DeepMaterializer._closure` selects the translation units that a request is
for: those that define the requested symbol and then, by call distance, those
that define what the selected functions call.
-/

namespace CppContextEngine.Ingestion

open CppContextEngine.Foundation

/-- A translation unit with its configuration, as the queries of the closure return it. -/
structure UnitRow where
  translationUnitId : String
  buildConfigurationId : String
  buildVariant : String
  commandHash : String
  sourcePath : String
  contentHash : String
  dependencies : List (String × String)
  deriving DecidableEq

structure DeepTranslationUnitTarget extends UnitRow where
  distance : Nat := 0
  deriving DecidableEq

/-- A row of the join of callsites, their targets and the units that define these. -/
structure CalleeRow where
  buildVariant : String
  translationUnitId : String
  ownerSymbolId : String
  targetSymbolId : String
  unit : UnitRow
  deriving DecidableEq

namespace DeepTranslationUnitTarget

/-- `(item.build_variant, item.translation_unit_id)` -/
def key (item : DeepTranslationUnitTarget) : String ×ₗ String :=
  toLex (item.buildVariant, item.translationUnitId)

/-- The order of the roots, which has the configuration before the unit. -/
def rootOrder (item : DeepTranslationUnitTarget) : Nat ×ₗ List String :=
  toLex (item.distance, [item.buildVariant, item.buildConfigurationId, item.translationUnitId])

end DeepTranslationUnitTarget

/-- The rows that the index has for the callees of all symbols. -/
structure CalleeTable where
  rows : List CalleeRow

namespace CalleeTable

variable (table : CalleeTable)

/-- The rows of one owner in one unit. -/
def calleeRows (key : String ×ₗ String) (ownerSymbolId : String) : List CalleeRow :=
  sortBy (fun row => [row.unit.buildVariant, row.unit.buildConfigurationId,
      row.unit.translationUnitId])
    ((table.rows.filter fun row => toLex (row.buildVariant, row.translationUnitId) = key ∧
      row.ownerSymbolId = ownerSymbolId).dedup)

/-- `deep_symbol_callees` -/
def deepSymbolCallees (target : DeepTranslationUnitTarget) (ownerSymbolId : String) :
    List (String × DeepTranslationUnitTarget) :=
  (table.calleeRows target.key ownerSymbolId).map fun row =>
    (row.targetSymbolId, { toUnitRow := row.unit, distance := target.distance + 1 })

def calls (node : (String ×ₗ String) × String) : List ((String ×ₗ String) × String) :=
  (table.calleeRows node.1 node.2).map fun row =>
    (toLex (row.unit.buildVariant, row.unit.translationUnitId), row.targetSymbolId)

/-- The calls between units, for the symbols that own them. -/
def graph : Nearest.Graph DeepTranslationUnitTarget (String ×ₗ String) String where
  unit := DeepTranslationUnitTarget.key
  distance := DeepTranslationUnitTarget.distance
  callees := table.deepSymbolCallees
  calls := table.calls
  callees_calls item symbol := by
    simp [deepSymbolCallees, calls, DeepTranslationUnitTarget.key]
  callees_distance item symbol callee hcallee := by
    obtain ⟨row, -, rfl⟩ := List.mem_map.mp hcallee
    rfl

/-- `known[key] = item`: the value changes, the position does not. -/
def setItem (known : List DeepTranslationUnitTarget) (item : DeepTranslationUnitTarget) :
    List DeepTranslationUnitTarget :=
  if ∃ other ∈ known, other.key = item.key then
    known.map fun other => if other.key = item.key then item else other
  else known ++ [item]

/-- `_closure`: the selected units, how many are known, and how many are left out. -/
def closure (roots : List DeepTranslationUnitTarget) (rootSymbolId : String) (maxTus fuel : Nat) :
    Option (List DeepTranslationUnitTarget × Nat × Nat) :=
  let orderedRoots := sortBy DeepTranslationUnitTarget.rootOrder roots
  let known := orderedRoots.foldl setItem []
  if maxTus < known.length then
    some (known.take maxTus, known.length, known.length - maxTus)
  else do
    let final ← table.graph.search maxTus fuel
      { known, pending := orderedRoots.map fun item => (item, rootSymbolId), expanded := [] }
    let ordered := sortBy table.graph.rank final.known
    let omitted := ordered.length - maxTus
    let omitted := if final.pending ≠ [] ∧ omitted = 0 then 1 else omitted
    return (ordered.take maxTus, ordered.length, omitted)

end CalleeTable

/-! ## What a closure selects -/

namespace CalleeTable

variable {table : CalleeTable} {units : List UnitRow} {rootSymbolId : String}

/-- `deep_definition_targets`: the roots of a request are at distance 0. -/
def rootTargets (units : List UnitRow) : List DeepTranslationUnitTarget :=
  units.map fun unit => { toUnitRow := unit }

/-- The requested symbol in the units that define it. -/
def rootNodes (units : List UnitRow) (rootSymbolId : String) :
    List ((String ×ₗ String) × String) :=
  units.map fun unit => (toLex (unit.buildVariant, unit.translationUnitId), rootSymbolId)

theorem foldl_setItem (items : List DeepTranslationUnitTarget) :
    ∀ {known : List DeepTranslationUnitTarget},
      ((known ++ items).map DeepTranslationUnitTarget.key).Nodup →
        items.foldl setItem known = known ++ items := by
  induction items with
  | nil => simp
  | cons item items ih =>
      intro known hnodup
      have hnew : ¬ ∃ other ∈ known, other.key = item.key := by
        rintro ⟨other, hother, hkey⟩
        rw [List.map_append, List.nodup_append'] at hnodup
        exact hnodup.2.2 (List.mem_map_of_mem hother) (by simp [hkey])
      rw [List.foldl_cons, setItem, if_neg hnew, ih (by simpa using hnodup)]
      simp

theorem rootTargets_known (hunits : ((rootTargets units).map
    DeepTranslationUnitTarget.key).Nodup) :
    (sortBy DeepTranslationUnitTarget.rootOrder (rootTargets units)).foldl setItem [] =
      sortBy DeepTranslationUnitTarget.rootOrder (rootTargets units) := by
  have hperm := sortBy_perm DeepTranslationUnitTarget.rootOrder (rootTargets units)
  exact foldl_setItem _ ((hperm.map _).nodup_iff.mpr hunits)

theorem mem_rootNodes {node : (String ×ₗ String) × String} :
    node ∈ rootNodes units rootSymbolId ↔
      ∃ item ∈ rootTargets units, item.distance = 0 ∧ (item.key, rootSymbolId) = node := by
  simp [rootNodes, rootTargets, DeepTranslationUnitTarget.key]

theorem root_shortest {item : DeepTranslationUnitTarget} (hitem : item ∈ rootTargets units) :
    Nearest.Shortest table.graph (rootNodes units rootSymbolId) item := by
  obtain ⟨unit, hunit, rfl⟩ := List.mem_map.mp hitem
  refine ⟨⟨rootSymbolId, .root (List.mem_map_of_mem hunit)⟩, ?_⟩
  intro length symbol _
  exact Nat.zero_le length

/-- The search starts with the roots, known and pending. -/
theorem searched_start (hunits : ((rootTargets units).map DeepTranslationUnitTarget.key).Nodup) :
    Nearest.Searched table.graph (rootNodes units rootSymbolId)
      { known := sortBy DeepTranslationUnitTarget.rootOrder (rootTargets units)
        pending := (sortBy DeepTranslationUnitTarget.rootOrder (rootTargets units)).map fun item =>
          (item, rootSymbolId)
        expanded := [] } [] where
  expanded := rfl
  path := by
    intro entry hentry
    obtain ⟨item, hitem, rfl⟩ := List.mem_map.mp hentry
    rw [mem_sortBy] at hitem
    obtain ⟨unit, hunit, rfl⟩ := List.mem_map.mp hitem
    exact .root (List.mem_map_of_mem hunit)
  start := by
    intro root hroot
    obtain ⟨item, hitem, hzero, rfl⟩ := mem_rootNodes.mp hroot
    exact .inr ⟨(item, rootSymbolId), List.mem_map_of_mem ((mem_sortBy _).mpr hitem), hzero, rfl⟩
  calls := by simp
  before := by simp
  known := by simp
  rootsKnown := by
    intro root hroot
    obtain ⟨item, hitem, -, rfl⟩ := mem_rootNodes.mp hroot
    exact ⟨item, (mem_sortBy _).mpr hitem, rfl⟩
  shortest := fun item hitem => root_shortest ((mem_sortBy _).mp hitem)
  nodup := (((sortBy_perm _ _).map _).nodup_iff).mpr hunits
  sorted := by
    intro item hitem
    rw [mem_sortBy] at hitem
    obtain ⟨unit, -, rfl⟩ := List.mem_map.mp hitem
    exact .inl rfl

/-- The nodes that a closure can meet. -/
def nodes (table : CalleeTable) (units : List UnitRow) (rootSymbolId : String) :
    List ((String ×ₗ String) × String) :=
  (rootNodes units rootSymbolId ++ table.rows.map fun row =>
    (toLex (row.unit.buildVariant, row.unit.translationUnitId), row.targetSymbolId)).dedup

theorem calls_subset_nodes (node : (String ×ₗ String) × String) :
    ∀ other ∈ table.graph.calls node, other ∈ table.nodes units rootSymbolId := by
  intro other hother
  obtain ⟨row, hrow, rfl⟩ := List.mem_map.mp hother
  rw [calleeRows, mem_sortBy, List.mem_dedup] at hrow
  rw [nodes, List.mem_dedup]
  exact List.mem_append_right _ (List.mem_map_of_mem (List.mem_of_mem_filter hrow))

/-- A unit is reached by calls from the requested symbol, over so many of them. -/
def Reached (table : CalleeTable) (units : List UnitRow) (rootSymbolId : String) (length : Nat)
    (key : String ×ₗ String) : Prop :=
  ∃ symbol, Nearest.Path table.graph.calls (rootNodes units rootSymbolId) length (key, symbol)

/-- The distance of a target is the least number of calls that reach its unit. -/
def AtDistance (table : CalleeTable) (units : List UnitRow) (rootSymbolId : String)
    (item : DeepTranslationUnitTarget) : Prop :=
  table.Reached units rootSymbolId item.distance item.key ∧
    ∀ length, table.Reached units rootSymbolId length item.key → item.distance ≤ length

theorem atDistance_of_shortest {item : DeepTranslationUnitTarget}
    (h : Nearest.Shortest table.graph (rootNodes units rootSymbolId) item) :
    table.AtDistance units rootSymbolId item :=
  ⟨h.path, fun length ⟨symbol, hpath⟩ => h.least length symbol hpath⟩

/-- More roots than the limit: the first of them are selected, in their own order. -/
theorem closure_of_roots (hunits : ((rootTargets units).map DeepTranslationUnitTarget.key).Nodup)
    {maxTus : Nat} (hroots : maxTus < units.length) (fuel : Nat) :
    table.closure (rootTargets units) rootSymbolId maxTus fuel =
      some ((sortBy DeepTranslationUnitTarget.rootOrder (rootTargets units)).take maxTus,
        units.length, units.length - maxTus) := by
  have hlength : (sortBy DeepTranslationUnitTarget.rootOrder (rootTargets units)).length =
      units.length := by
    simp [rootTargets]
  simp only [closure, rootTargets_known hunits, hlength, if_pos hroots]

/-- What a closure selects when all roots fit. -/
theorem closure_of_search
    (hunits : ((rootTargets units).map DeepTranslationUnitTarget.key).Nodup) {maxTus : Nat}
    (hroots : units.length ≤ maxTus) : ∃ bound, ∀ fuel, bound < fuel → ∃ known,
      Nearest.Found table.graph (rootNodes units rootSymbolId) maxTus known ∧
      table.closure (rootTargets units) rootSymbolId maxTus fuel =
        some ((sortBy table.graph.rank known).take maxTus, known.length, known.length - maxTus) := by
  have hstart := @searched_start table units rootSymbolId hunits
  have hlength : (sortBy DeepTranslationUnitTarget.rootOrder (rootTargets units)).length =
      units.length := by
    simp [rootTargets]
  have hpending : ∀ entry ∈ (sortBy DeepTranslationUnitTarget.rootOrder
      (rootTargets units)).map (fun item => (item, rootSymbolId)),
      table.graph.node entry ∈ table.nodes units rootSymbolId := by
    intro entry hentry
    obtain ⟨item, hitem, rfl⟩ := List.mem_map.mp hentry
    rw [mem_sortBy] at hitem
    obtain ⟨unit, hunit, rfl⟩ := List.mem_map.mp hitem
    rw [nodes, List.mem_dedup]
    exact List.mem_append_left _ (List.mem_map_of_mem hunit)
  have hknown : (sortBy DeepTranslationUnitTarget.rootOrder (rootTargets units)).length ≤ maxTus :=
    hlength.le.trans hroots
  have hnodup : (table.nodes units rootSymbolId).Nodup := List.nodup_dedup _
  refine ⟨stepsLeft table.graph.calls (table.nodes units rootSymbolId)
    (((sortBy DeepTranslationUnitTarget.rootOrder (rootTargets units)).map fun item =>
      (item, rootSymbolId)).map table.graph.node) [], fun fuel hfuel => ?_⟩
  obtain ⟨final, hsearch, hempty, hfound⟩ :=
    Nearest.search_found hnodup calls_subset_nodes fuel hstart hknown hpending hfuel
  refine ⟨final.known, hfound, ?_⟩
  simp only [closure, rootTargets_known hunits, hlength, if_neg (not_lt.mpr hroots), hsearch,
    bind, Option.bind, pure, length_sortBy]
  congr 3
  rw [if_neg]
  rintro ⟨hne, hzero⟩
  exact hne (hempty (by omega))

theorem exists_cut {items : List DeepTranslationUnitTarget} {count : Nat}
    (hnodup : (items.map DeepTranslationUnitTarget.key).Nodup) (hcount : count < items.length) :
    ∃ item ∈ items, ∀ other ∈ items.take count, other.key ≠ item.key := by
  have hdrop : items.get ⟨count, hcount⟩ ∈ items.drop count := by
    rw [List.drop_eq_getElem_cons hcount]
    exact List.mem_cons_self
  refine ⟨_, List.mem_of_mem_drop hdrop, fun other hother hkey => ?_⟩
  rw [← List.take_append_drop count items, List.map_append, List.nodup_append'] at hnodup
  exact hnodup.2.2 (List.mem_map_of_mem hother) (hkey ▸ List.mem_map_of_mem hdrop)

def definingUnit (id configuration : String) : UnitRow where
  translationUnitId := id
  buildConfigurationId := configuration
  buildVariant := "default"
  commandHash := "h"
  sourcePath := "/p/" ++ id ++ ".cpp"
  contentHash := "s"
  dependencies := []

def twoRoots : List UnitRow := [definingUnit "u1" "c2", definingUnit "u2" "c1"]

end CalleeTable

end CppContextEngine.Ingestion
