import CppContextEngine.Analysis.CallGraph
import CppContextEngine.Foundation.TarjanRecursion

/-!
# Components of an adjacency map

`_tarjan` on a tuple of nodes and a dictionary of target sets.  The nested
`visit` is `descend`, and the exceptions of its list and set are `none`.
-/

namespace CppContextEngine.Analysis

open CppContextEngine.Foundation CppContextEngine.Models

/-- `sorted(adjacency.get(node, ()))` -/
def sortedTargets (adjacency : Table Names) (node : String) : List String :=
  (adjacency[node]?.getD ∅).toList

def tarjan (fuel : Nat) (nodes : List String) (adjacency : Table Names) :
    Option (List (List String)) :=
  Tarjan.run fuel nodes (sortedTargets adjacency)

/-! ## Edges and paths -/

def HasEdge (adjacency : Table Names) (source target : String) : Prop :=
  ∃ row, adjacency[source]? = some row ∧ target ∈ row

def Reachable (adjacency : Table Names) : String → String → Prop :=
  Relation.ReflTransGen (HasEdge adjacency)

theorem mem_sortedTargets {adjacency : Table Names} {source target : String} :
    target ∈ sortedTargets adjacency source ↔ HasEdge adjacency source target := by
  unfold sortedTargets HasEdge
  cases adjacency[source]? <;> simp

theorem reach_sortedTargets (adjacency : Table Names) :
    Tarjan.Reach (sortedTargets adjacency) = Reachable adjacency := by
  have hedge : Tarjan.Edge (sortedTargets adjacency) = HasEdge adjacency := by
    funext source target
    exact propext mem_sortedTargets
  rw [Tarjan.Reach, hedge]
  rfl

/-! ## Correctness -/

theorem tarjan_eq {nodes : List String} {adjacency : Table Names}
    (htargets : ∀ source target, HasEdge adjacency source target → target ∈ nodes) {fuel : Nat}
    (hfuel : nodes.length ≤ fuel) :
    tarjan fuel nodes adjacency =
      some (Tarjan.components nodes (sortedTargets adjacency)) :=
  Tarjan.run_eq (fun source _ target htarget =>
    htargets source target (mem_sortedTargets.mp htarget)) hfuel

/-- The components that the solver works with are those `_tarjan` returns. -/
theorem tarjan_components (p : Problem) {adjacency : Table Names}
    (hrows : ∀ id, sortedTargets adjacency id = p.successors id) {fuel : Nat}
    (hfuel : p.summaryIds.length ≤ fuel) :
    tarjan fuel p.summaryIds adjacency = some p.components := by
  rw [tarjan_eq ?_ hfuel, funext hrows]
  · rfl
  · intro source target hedge
    rw [← mem_sortedTargets, hrows, p.mem_successors] at hedge
    exact p.adjacency_subset hedge

theorem flatten_nodup {α : Type} [LinearOrder α] {adjacency : α → List α}
    {nodes : List α} {result : List (List α)}
    (h : Tarjan.Components adjacency nodes result) : result.flatten.Nodup := by
  rw [List.nodup_flatten]
  exact ⟨fun component hc => (h.isComponent component hc).2.1.imp fun hlt => hlt.ne, h.disjoint⟩

theorem share_component_iff {α : Type} [LinearOrder α] {adjacency : α → List α}
    {nodes : List α} {result : List (List α)} (h : Tarjan.Components adjacency nodes result)
    {u v : α} (hu : u ∈ nodes) :
    (∃ component ∈ result, u ∈ component ∧ v ∈ component) ↔
      Tarjan.Reach adjacency u v ∧ Tarjan.Reach adjacency v u := by
  constructor
  · rintro ⟨component, hc, huc, hvc⟩
    exact ((h.isComponent component hc).2.2 u huc v).mp hvc
  · intro hmutual
    obtain ⟨component, hc, huc⟩ := (h.covers u).mp hu
    exact ⟨component, hc, huc, ((h.isComponent component hc).2.2 u huc v).mpr hmutual⟩

theorem target_not_later {α : Type} {adjacency : α → List α} {result : List (List α)}
    (h : Tarjan.SuccessorsFirst adjacency result) {u v : α} (hedge : v ∈ adjacency u) {i : Nat}
    {component : List α} (hi : result[i]? = some component) (hu : u ∈ component) :
    v ∈ component ∨ ∃ j < i, ∃ earlier, result[j]? = some earlier ∧ v ∈ earlier := by
  obtain ⟨hlt, rfl⟩ := List.getElem?_eq_some_iff.mp hi
  have hsplit : result = result.take i ++ result[i] :: result.drop (i + 1) := by simp
  obtain ⟨found, hfound, hv⟩ := h _ _ _ hsplit u hu v hedge
  rw [List.mem_append, List.mem_singleton] at hfound
  rcases hfound with hbefore | rfl
  · obtain ⟨j, hj, rfl⟩ := List.getElem_of_mem hbefore
    rw [List.length_take] at hj
    rw [List.getElem_take] at hv
    have hjlt : j < result.length := by omega
    exact .inr ⟨j, by omega, result[j], List.getElem?_eq_getElem hjlt, hv⟩
  · exact .inl hv

/--
`_tarjan` returns the strongly connected components, each node once, and no
edge leads to a component later in the list.
-/
theorem tarjan_correct (nodes : List String) (adjacency : Table Names)
    (htargets : ∀ source target, HasEdge adjacency source target → target ∈ nodes) :
    ∃ components, (∀ fuel, nodes.length ≤ fuel →
        tarjan fuel nodes adjacency = some components) ∧
      components.flatten.Nodup ∧
      (∀ node, node ∈ components.flatten ↔ node ∈ nodes) ∧
      (∀ u ∈ nodes, ∀ v ∈ nodes, (∃ component ∈ components, u ∈ component ∧ v ∈ component) ↔
        Reachable adjacency u v ∧ Reachable adjacency v u) ∧
      ∀ u v, HasEdge adjacency u v → ∀ (i : Nat) (component : List String),
        components[i]? = some component → u ∈ component →
        v ∈ component ∨ ∃ j < i, ∃ earlier, components[j]? = some earlier ∧ v ∈ earlier := by
  have hspec : Tarjan.Components (sortedTargets adjacency) nodes
      (Tarjan.components nodes (sortedTargets adjacency)) :=
    Tarjan.components_spec fun source _ target htarget =>
      htargets source target (mem_sortedTargets.mp htarget)
  refine ⟨_, fun fuel hfuel => tarjan_eq htargets hfuel, flatten_nodup hspec, ?_, ?_, ?_⟩
  · intro node
    rw [List.mem_flatten, hspec.covers node]
  · intro u hu v _
    rw [← reach_sortedTargets]
    exact share_component_iff hspec hu
  · intro u v hedge i component hi hu
    exact target_not_later hspec.ordered (mem_sortedTargets.mpr hedge) hi hu

/-- A cycle, a self loop, an empty row and, among the nodes below, one without a row. -/
def callExample : Table Names :=
  (((∅ : Table Names).insert "a" (Std.ExtTreeSet.ofList ["b"])).insert "b"
    (Std.ExtTreeSet.ofList ["a", "c"])).insert "c" (Std.ExtTreeSet.ofList ["c"]) |>.insert "d" ∅

theorem callExample_targets (source target : String) (h : HasEdge callExample source target) :
    target ∈ ["e", "a", "d", "b", "c", "a"] := by
  obtain ⟨row, hrow, htarget⟩ := h
  simp only [callExample, Std.ExtTreeMap.getElem?_insert, Std.ExtTreeMap.getElem?_empty] at hrow
  split_ifs at hrow <;> cases hrow <;> simp at htarget ⊢ <;> grind

theorem tarjan_correct_example :
    ∃ components, (∀ fuel, 6 ≤ fuel →
        tarjan fuel ["e", "a", "d", "b", "c", "a"] callExample = some components) ∧
      components.flatten.Nodup ∧
      (∀ node, node ∈ components.flatten ↔ node ∈ ["e", "a", "d", "b", "c", "a"]) ∧
      (∀ u ∈ ["e", "a", "d", "b", "c", "a"], ∀ v ∈ ["e", "a", "d", "b", "c", "a"],
        (∃ component ∈ components, u ∈ component ∧ v ∈ component) ↔
          Reachable callExample u v ∧ Reachable callExample v u) ∧
      ∀ u v, HasEdge callExample u v → ∀ (i : Nat) (component : List String),
        components[i]? = some component → u ∈ component →
        v ∈ component ∨ ∃ j < i, ∃ earlier, components[j]? = some earlier ∧ v ∈ earlier :=
  tarjan_correct ["e", "a", "d", "b", "c", "a"] callExample callExample_targets

end CppContextEngine.Analysis
