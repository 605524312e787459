import CppContextEngine.Analysis.Solution

/-!
# The call graph and its components

The adjacency that the solver builds is closed over the summaries, so its
Tarjan components are the strongly connected components, callees first.
-/

namespace CppContextEngine.Analysis

open CppContextEngine.Foundation CppContextEngine.Models

variable (p : Problem)

namespace Problem

/-! ## Summaries and edges -/

theorem mem_summaryIds {id : String} :
    id ∈ p.summaryIds ↔ ∃ summary ∈ p.summaries, summary.id = id := by
  simp [summaryIds]

theorem summaryById_id {id : String} {summary : FunctionSummary}
    (h : p.summaryById id = some summary) : summary.id = id :=
  lastBy_key _ h

theorem summaryById_mem {id : String} {summary : FunctionSummary}
    (h : p.summaryById id = some summary) : summary ∈ p.summaries :=
  mem_of_lastBy _ h

theorem summaryById_isSome {id : String} :
    (p.summaryById id).isSome ↔ id ∈ p.summaryIds := by
  rw [mem_summaryIds]
  exact lastBy_isSome_iff _

theorem mem_bodiesOf {symbol : String} {body : FunctionSummary} :
    body ∈ p.bodiesOf symbol ↔ body ∈ p.summaries ∧ body.functionSymbolId = symbol := by
  simp [bodiesOf]

theorem calleeBodies_subset {caller body : FunctionSummary}
    {target : SummaryCallTargetProjection} (h : body ∈ (p.calleeBodies caller target).1) :
    body ∈ p.bodiesOf target.targetSymbolId := by
  simp only [calleeBodies] at h
  split at h
  · exact h
  · exact List.mem_of_mem_filter h

theorem mem_callerEdges {caller : FunctionSummary} {edge : CallEdge} :
    edge ∈ p.callerEdges caller ↔
      edge.site ∈ p.ownerSites caller ∧ edge.target ∈ p.siteTargets edge.site ∧
        edge.callee ∈ (p.calleeBodies caller edge.target).1 ∧
        edge.bodyAmbiguous = (p.calleeBodies caller edge.target).2 := by
  obtain ⟨site, target, callee, bodyAmbiguous⟩ := edge
  simp only [callerEdges, siteEdges, targetEdges, List.mem_flatMap, List.mem_map,
    CallEdge.mk.injEq]
  constructor
  · rintro ⟨site', hsite, target', htarget, callee', hcallee, rfl, rfl, rfl, rfl⟩
    exact ⟨hsite, htarget, hcallee, rfl⟩
  · rintro ⟨hsite, htarget, hcallee, rfl⟩
    exact ⟨site, hsite, target, htarget, callee, hcallee, rfl, rfl, rfl, rfl⟩

theorem callee_mem_summaries {caller : FunctionSummary} {edge : CallEdge}
    (h : edge ∈ p.callerEdges caller) : edge.callee ∈ p.summaries :=
  ((p.mem_bodiesOf).mp (p.calleeBodies_subset (p.mem_callerEdges.mp h).2.2.1)).1

theorem mem_adjacency {caller callee : String} :
    callee ∈ p.adjacency caller ↔ ∃ edge ∈ p.callEdges caller, edge.callee.id = callee := by
  simp [adjacency]

theorem callerEdges_subset {id : String} {summary : FunctionSummary}
    (h : p.summaryById id = some summary) {edge : CallEdge} (hedge : edge ∈ p.callerEdges summary) :
    edge ∈ p.callEdges id := by
  refine List.mem_flatMap.mpr ⟨summary, ?_, hedge⟩
  simpa using ⟨p.summaryById_mem h, p.summaryById_id h⟩

theorem adjacency_of_callerEdges {id : String} {summary : FunctionSummary}
    (h : p.summaryById id = some summary) {edge : CallEdge} (hedge : edge ∈ p.callerEdges summary) :
    edge.callee.id ∈ p.adjacency id :=
  (p.mem_adjacency).mpr ⟨edge, p.callerEdges_subset h hedge, rfl⟩

theorem adjacency_subset {caller callee : String} (h : callee ∈ p.adjacency caller) :
    callee ∈ p.summaryIds := by
  obtain ⟨edge, hedge, rfl⟩ := (p.mem_adjacency).mp h
  obtain ⟨summary, -, hedge⟩ := List.mem_flatMap.mp hedge
  exact (p.mem_summaryIds).mpr ⟨edge.callee, p.callee_mem_summaries hedge, rfl⟩

/-! ## Components -/

/-- The successor lists that `_tarjan` walks. -/
def successors (id : String) : List String := (p.adjacency id).toList

theorem mem_successors {caller callee : String} :
    callee ∈ p.successors caller ↔ callee ∈ p.adjacency caller := by
  simp [successors]

theorem components_spec : Tarjan.Components p.successors p.summaryIds p.components :=
  Tarjan.components_spec fun _ _ _ hw => p.adjacency_subset ((p.mem_successors).mp hw)

theorem mem_summaryIds_of_component {component : List String} (h : component ∈ p.components)
    {id : String} (hid : id ∈ component) : id ∈ p.summaryIds :=
  (p.components_spec.covers id).mpr ⟨component, h, hid⟩

theorem component_nodup {component : List String} (h : component ∈ p.components) :
    component.Nodup :=
  (p.components_spec.isComponent component h).2.1.imp fun hlt => hlt.ne

/-- A callee of a component's member is a member or belongs to an earlier component. -/
theorem callee_component {before after : List (List String)} {component : List String}
    (hsplit : p.components = before ++ component :: after) {id callee : String}
    (hid : id ∈ component) (hcallee : callee ∈ p.adjacency id) :
    callee ∈ component ∨ ∃ earlier ∈ before, callee ∈ earlier := by
  obtain ⟨c, hc, hmem⟩ := p.components_spec.ordered before component after hsplit id hid callee
    ((p.mem_successors).mpr hcallee)
  rw [List.mem_append, List.mem_singleton] at hc
  rcases hc with hc | rfl
  · exact .inr ⟨c, hc, hmem⟩
  · exact .inl hmem

/-- The parts of a split of the components share no identifier. -/
theorem split_disjoint {before after : List (List String)} {component : List String}
    (hsplit : p.components = before ++ component :: after) :
    (∀ c ∈ before, List.Disjoint c component) ∧ (∀ c ∈ after, List.Disjoint component c) ∧
      ∀ c ∈ before, ∀ d ∈ after, List.Disjoint c d := by
  have hdisjoint := p.components_spec.disjoint
  rw [hsplit, List.pairwise_append, List.pairwise_cons] at hdisjoint
  obtain ⟨-, ⟨hafter, -⟩, hbefore⟩ := hdisjoint
  exact ⟨fun c hc => hbefore c hc component List.mem_cons_self, hafter,
    fun c hc d hd => hbefore c hc d (List.mem_cons_of_mem _ hd)⟩

theorem map_id_members {component : List String} (h : component ∈ p.components) :
    (p.members component).map FunctionSummary.id = component := by
  have hsome : ∀ id ∈ component, ∃ summary, p.summaryById id = some summary := fun id hid =>
    Option.isSome_iff_exists.mp
      ((p.summaryById_isSome).mpr (p.mem_summaryIds_of_component h hid))
  clear h
  induction component with
  | nil => rfl
  | cons id component ih =>
      obtain ⟨summary, hsummary⟩ := hsome id List.mem_cons_self
      have hrest := ih fun id hid => hsome id (List.mem_cons_of_mem _ hid)
      simp only [members] at hrest ⊢
      rw [List.filterMap_cons_some hsummary, List.map_cons, hrest, p.summaryById_id hsummary]

theorem mem_members {component : List String} {summary : FunctionSummary} :
    summary ∈ p.members component ↔
      summary.id ∈ component ∧ p.summaryById summary.id = some summary := by
  simp only [members, List.mem_filterMap]
  constructor
  · rintro ⟨id, hid, h⟩
    obtain rfl := p.summaryById_id h
    exact ⟨hid, h⟩
  · rintro ⟨hid, h⟩
    exact ⟨summary.id, hid, h⟩

end Problem

end CppContextEngine.Analysis
