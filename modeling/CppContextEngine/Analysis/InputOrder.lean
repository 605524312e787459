import CppContextEngine.Analysis.FlowProjection
import CppContextEngine.Foundation.Ranking
import CppContextEngine.Foundation.Reorder

/-!
# The order of the inputs does not matter

Where every identifier and every lookup key belongs to one record, two problems
that differ in the order of their records have the same components, the same
transfers and the same solution.
-/

namespace CppContextEngine.Analysis

open CppContextEngine.Foundation CppContextEngine.Models

namespace Problem

/-- The same records, each of the seven kinds in any order. -/
structure Reordered (p q : Problem) : Prop where
  summaries : p.summaries.Perm q.summaries
  localEffects : p.localEffects.Perm q.localEffects
  localOrigins : p.localOrigins.Perm q.localOrigins
  bindings : p.bindings.Perm q.bindings
  resultBindings : p.resultBindings.Perm q.resultBindings
  callsites : p.callsites.Perm q.callsites
  targets : p.targets.Perm q.targets
  limits : p.limits = q.limits

/-- An identifier or lookup key belongs to one record, and a made identifier to one fact. -/
structure WellKeyed [Fingerprint] (p : Problem) : Prop where
  digest : Function.Injective Fingerprint.digest
  summaries : (p.summaries.map FunctionSummary.id).Nodup
  effects : (p.localEffects.map SummaryEffect.id).Nodup
  origins : (p.localOrigins.map SummaryReturnOrigin.id).Nodup
  callsites : (p.callsites.map SummaryCallSiteProjection.id).Nodup
  bindings : (p.bindings.map fun item : CallArgumentBinding =>
    (item.callerSummaryId, item.callsiteId, item.argumentIndex)).Nodup
  results : (p.resultBindings.map fun item : CallResultBinding =>
    (item.callerSummaryId, item.callsiteId)).Nodup
  targets : (p.targets.map fun target : SummaryCallTargetProjection =>
    (target.callsiteId, target.targetSymbolId)).Nodup
  fresh : p.OriginsFresh

section Relations

variable {p q : Problem}

theorem Reordered.symm (h : Reordered p q) : Reordered q p where
  summaries := h.summaries.symm
  localEffects := h.localEffects.symm
  localOrigins := h.localOrigins.symm
  bindings := h.bindings.symm
  resultBindings := h.resultBindings.symm
  callsites := h.callsites.symm
  targets := h.targets.symm
  limits := h.limits.symm

theorem WellKeyed.reordered [Fingerprint] (h : Reordered p q) (hkeyed : p.WellKeyed) : q.WellKeyed where
  digest := hkeyed.digest
  summaries := (h.summaries.map _).nodup_iff.mp hkeyed.summaries
  effects := (h.localEffects.map _).nodup_iff.mp hkeyed.effects
  origins := (h.localOrigins.map _).nodup_iff.mp hkeyed.origins
  callsites := (h.callsites.map _).nodup_iff.mp hkeyed.callsites
  bindings := (h.bindings.map _).nodup_iff.mp hkeyed.bindings
  results := (h.resultBindings.map _).nodup_iff.mp hkeyed.results
  targets := (h.targets.map _).nodup_iff.mp hkeyed.targets
  fresh origin horigin := hkeyed.fresh origin (h.localOrigins.mem_iff.mpr horigin)

theorem WellKeyed.localOriginsOf_nodup [Fingerprint] (hkeyed : p.WellKeyed) (id : String) :
    ((p.localOriginsOf id).map SummaryReturnOrigin.id).Nodup := by
  rw [localOriginsOf, ((List.perm_insertionSort _ _).map _).nodup_iff]
  exact hkeyed.origins.sublist (List.filter_sublist.map _)

end Relations

section Lookups

variable [Fingerprint] {p q : Problem} (h : Reordered p q) (hkeyed : p.WellKeyed)
include h hkeyed

/-! ## Lookups and sorted groups -/

theorem summaryById_reordered (id : String) : p.summaryById id = q.summaryById id :=
  lastBy_perm h.summaries hkeyed.summaries id

theorem binding_reordered (caller : FunctionSummary) (site : SummaryCallSiteProjection)
    (index : Nat) : p.binding? caller site index = q.binding? caller site index :=
  lastBy_perm h.bindings hkeyed.bindings _

theorem result_reordered (caller : FunctionSummary) (site : SummaryCallSiteProjection) :
    p.result? caller site = q.result? caller site :=
  lastBy_perm h.resultBindings hkeyed.results _

omit [Fingerprint] h hkeyed in
/-- Sorting what is left of records with distinct identifiers. -/
theorem sorted_filter_perm {β : Type} {id : β → String} {items others : List β}
    (hperm : items.Perm others) (hnodup : (items.map id).Nodup) (keep : β → Bool) :
    (items.filter keep).insertionSort (fun item other => id item ≤ id other) =
      (others.filter keep).insertionSort fun item other => id item ≤ id other := by
  apply sortBy_eq_of_perm id (hperm.filter keep)
  intro item hitem other hother
  exact List.inj_on_of_nodup_map hnodup (List.mem_of_mem_filter hitem)
    (List.mem_of_mem_filter hother)

theorem bodiesOf_reordered (symbol : String) : p.bodiesOf symbol = q.bodiesOf symbol :=
  sorted_filter_perm h.summaries hkeyed.summaries _

theorem localEffectsOf_reordered (id : String) : p.localEffectsOf id = q.localEffectsOf id :=
  sorted_filter_perm h.localEffects hkeyed.effects _

theorem localOriginsOf_reordered (id : String) : p.localOriginsOf id = q.localOriginsOf id :=
  sorted_filter_perm h.localOrigins hkeyed.origins _

theorem calleeBodies_reordered (caller : FunctionSummary)
    (target : SummaryCallTargetProjection) :
    p.calleeBodies caller target = q.calleeBodies caller target := by
  unfold calleeBodies
  rw [bodiesOf_reordered h hkeyed]

theorem targetEdges_reordered (caller : FunctionSummary) (site : SummaryCallSiteProjection)
    (target : SummaryCallTargetProjection) :
    p.targetEdges caller site target = q.targetEdges caller site target := by
  unfold targetEdges
  rw [calleeBodies_reordered h hkeyed]

end Lookups

/-! ## Calls -/

/-- The resolved targets of a body, each with its callsite. -/
def calls (p : Problem) (caller : FunctionSummary) :
    List (SummaryCallSiteProjection × SummaryCallTargetProjection) :=
  (p.ownerSites caller).flatMap fun site => (p.siteTargets site).map fun target => (site, target)

/-- What is collected over the edges of a body, call by call. -/
theorem flatMap_callerEdges {β : Type} (p : Problem) (caller : FunctionSummary)
    (rows : CallEdge → List β) : (p.callerEdges caller).flatMap rows =
      (p.calls caller).flatMap fun call => (p.targetEdges caller call.1 call.2).flatMap rows := by
  simp only [callerEdges, siteEdges, calls, List.flatMap_assoc, List.flatMap_map]

theorem callerEdges_eq_flatMap (p : Problem) (caller : FunctionSummary) : p.callerEdges caller =
    (p.calls caller).flatMap fun call => p.targetEdges caller call.1 call.2 := by
  simp only [callerEdges, calls, List.flatMap_assoc, List.flatMap_map]
  rfl

theorem Reordered.calls {p q : Problem} (h : Reordered p q) (caller : FunctionSummary) :
    (p.calls caller).Perm (q.calls caller) := by
  apply List.Perm.flatMap (h.callsites.filter _)
  intro site _
  exact (h.targets.filter _).map _

/-- Two calls differ in their callsite or in their target symbol. -/
def CallsDiffer (call other : SummaryCallSiteProjection × SummaryCallTargetProjection) : Prop :=
  ¬ (call.1.id = other.1.id ∧ call.2.targetSymbolId = other.2.targetSymbolId)

theorem WellKeyed.calls_pairwise [Fingerprint] {p : Problem} (hkeyed : p.WellKeyed)
    (caller : FunctionSummary) : (p.calls caller).Pairwise CallsDiffer := by
  unfold calls
  rw [List.pairwise_flatMap]
  constructor
  · intro site _
    rw [List.pairwise_map]
    apply ((List.pairwise_map.mp hkeyed.targets).filter _).imp_of_mem
    intro target other htarget hother hne hsame
    have htarget : target.callsiteId = site.id := by simpa using (List.mem_filter.mp htarget).2
    have hother : other.callsiteId = site.id := by simpa using (List.mem_filter.mp hother).2
    exact hne (Prod.ext (htarget.trans hother.symm) hsame.2)
  · apply ((List.pairwise_map.mp hkeyed.callsites).filter _).imp
    intro site other hne call hcall call' hcall' hsame
    obtain ⟨target, -, rfl⟩ := List.mem_map.mp hcall
    obtain ⟨target', -, rfl⟩ := List.mem_map.mp hcall'
    exact hne hsame.1

section Graph

variable [Fingerprint] {p q : Problem} (h : Reordered p q) (hkeyed : p.WellKeyed)
include h hkeyed

theorem mem_callerEdges_reordered (caller : FunctionSummary) :
    (p.callerEdges caller).Perm (q.callerEdges caller) := by
  rw [callerEdges_eq_flatMap, callerEdges_eq_flatMap]
  apply List.Perm.flatMap (h.calls caller)
  intro call _
  rw [targetEdges_reordered h hkeyed]

theorem callEdges_reordered (id : String) : (p.callEdges id).Perm (q.callEdges id) := by
  apply List.Perm.flatMap (h.summaries.filter _)
  exact fun caller _ => mem_callerEdges_reordered h hkeyed caller

theorem adjacency_reordered (id : String) : p.adjacency id = q.adjacency id := by
  apply Std.ExtTreeSet.ext_mem
  intro callee
  rw [mem_adjacency, mem_adjacency]
  simp only [(callEdges_reordered h hkeyed id).mem_iff]

omit [Fingerprint] hkeyed in
theorem summaryIds_reordered : p.summaryIds.Perm q.summaryIds :=
  (h.summaries.map FunctionSummary.id).dedup

/-- The nodes are visited in sorted order, and so are the callees of each. -/
theorem components_reordered : p.components = q.components := by
  have hnodes : p.summaryIds.insertionSort (· ≤ ·) = q.summaryIds.insertionSort (· ≤ ·) :=
    sortBy_eq_of_perm (fun id => id) (summaryIds_reordered h) fun _ _ _ _ heq => heq
  unfold components Tarjan.components
  rw [hnodes, (summaryIds_reordered h).length_eq]
  simp only [adjacency_reordered h hkeyed]

theorem members_reordered (component : List String) :
    p.members component = q.members component := by
  unfold members
  rw [funext (summaryById_reordered h hkeyed)]

theorem isRecursive_reordered (id : String) : p.isRecursive id = q.isRecursive id := by
  unfold isRecursive
  rw [components_reordered h hkeyed, adjacency_reordered h hkeyed]
  simp only [(summaryIds_reordered h).mem_iff]

theorem isOversized_reordered (id : String) : p.isOversized id = q.isOversized id := by
  unfold isOversized
  rw [components_reordered h hkeyed, h.limits]

end Graph

/-! ## One transfer -/

section Transfer

variable [Fingerprint] {p q : Problem} {current : Environment} {caller : FunctionSummary}

/-- What one call writes into the effects of its caller. -/
def callEffects (p : Problem) (current : Environment) (caller : FunctionSummary)
    (call : SummaryCallSiteProjection × SummaryCallTargetProjection) : List SummaryEffect :=
  (p.targetEdges caller call.1 call.2).flatMap (p.edgeEffects current caller)

/-- What one call writes into the origins of its caller. -/
def callOrigins (p : Problem) (current : Environment) (caller : FunctionSummary)
    (call : SummaryCallSiteProjection × SummaryCallTargetProjection) :
    List SummaryReturnOrigin :=
  (p.targetEdges caller call.1 call.2).flatMap fun edge =>
    if p.Marked caller edge then p.edgeOrigins current caller edge else []

omit [Fingerprint] in
theorem targetEdges_call {site : SummaryCallSiteProjection} {target : SummaryCallTargetProjection}
    {edge : CallEdge} (hedge : edge ∈ p.targetEdges caller site target) :
    edge.site = site ∧ edge.target = target := by
  obtain ⟨callee, -, rfl⟩ := List.mem_map.mp hedge
  exact ⟨rfl, rfl⟩

theorem effectWrites_eq : p.effectWrites current caller =
    p.localEffectsOf caller.id ++ (p.calls caller).flatMap (p.callEffects current caller) := by
  unfold effectWrites
  rw [flatMap_callerEdges]
  rfl

theorem originWrites_eq : p.originWrites current caller =
    p.localOriginsOf caller.id ++ (p.calls caller).flatMap (p.callOrigins current caller) := by
  unfold originWrites
  refine congrArg _ (Eq.trans ?_ (flatMap_callerEdges p caller _))
  generalize p.callerEdges caller = edges
  induction edges with
  | nil => rfl
  | cons edge edges ih =>
      by_cases hmarked : p.Marked caller edge <;> simp [hmarked, ih]

theorem callEffects_apart (hdigest : Function.Injective Fingerprint.digest)
    {call other : SummaryCallSiteProjection × SummaryCallTargetProjection}
    (hne : CallsDiffer call other) :
    Apart SummaryEffect.id (p.callEffects current caller) call other := by
  intro row hrow row' hrow' hid
  obtain ⟨edge, hedge, hrow⟩ := List.mem_flatMap.mp hrow
  obtain ⟨edge', hedge', hrow'⟩ := List.mem_flatMap.mp hrow'
  obtain ⟨source, -, hrow⟩ := List.mem_filterMap.mp hrow
  obtain ⟨source', -, hrow'⟩ := List.mem_filterMap.mp hrow'
  obtain ⟨place, -, rfl⟩ := Option.map_eq_some_iff.mp hrow
  obtain ⟨place', -, rfl⟩ := Option.map_eq_some_iff.mp hrow'
  have hvalues := makeId_injective hdigest _ hid
  simp only [List.cons.injEq, IdValue.text.injEq] at hvalues
  rw [(targetEdges_call hedge).1, (targetEdges_call hedge).2, (targetEdges_call hedge').1,
    (targetEdges_call hedge').2] at hvalues
  exact hne ⟨hvalues.2.2.2.2.2.1, hvalues.2.2.2.2.2.2.1⟩

theorem callOrigins_apart (hdigest : Function.Injective Fingerprint.digest)
    {call other : SummaryCallSiteProjection × SummaryCallTargetProjection}
    (hne : CallsDiffer call other) :
    Apart SummaryReturnOrigin.id (p.callOrigins current caller) call other := by
  intro row hrow row' hrow' hid
  obtain ⟨edge, hedge, hrow⟩ := List.mem_flatMap.mp hrow
  obtain ⟨edge', hedge', hrow'⟩ := List.mem_flatMap.mp hrow'
  obtain ⟨-, hrow⟩ := List.mem_ite_nil_right.mp hrow
  obtain ⟨-, hrow'⟩ := List.mem_ite_nil_right.mp hrow'
  obtain ⟨source, -, rfl⟩ := List.mem_map.mp hrow
  obtain ⟨source', -, rfl⟩ := List.mem_map.mp hrow'
  have hvalues := makeId_injective hdigest _ hid
  simp only [List.cons.injEq, IdValue.text.injEq] at hvalues
  rw [(targetEdges_call hedge).1, (targetEdges_call hedge).2, (targetEdges_call hedge').1,
    (targetEdges_call hedge').2] at hvalues
  exact hne ⟨hvalues.2.1, hvalues.2.2.1⟩

variable (h : Reordered p q) (hkeyed : p.WellKeyed)
include h hkeyed

theorem edgeEffects_reordered (edge : CallEdge) :
    p.edgeEffects current caller edge = q.edgeEffects current caller edge := by
  unfold edgeEffects propagateEffect effectPlace
  simp only [binding_reordered h hkeyed]

theorem edgeOrigins_reordered (edge : CallEdge) :
    p.edgeOrigins current caller edge = q.edgeOrigins current caller edge := by
  unfold edgeOrigins propagateOrigin originPlace
  simp only [binding_reordered h hkeyed]

theorem marked_reordered (edge : CallEdge) :
    p.Marked caller edge ↔ q.Marked caller edge := by
  unfold Marked
  rw [localOriginsOf_reordered h hkeyed]

theorem callEffects_reordered (call : SummaryCallSiteProjection × SummaryCallTargetProjection) :
    p.callEffects current caller call = q.callEffects current caller call := by
  unfold callEffects
  rw [targetEdges_reordered h hkeyed, funext (edgeEffects_reordered h hkeyed)]

theorem callOrigins_reordered (call : SummaryCallSiteProjection × SummaryCallTargetProjection) :
    p.callOrigins current caller call = q.callOrigins current caller call := by
  unfold callOrigins
  rw [targetEdges_reordered h hkeyed]
  apply List.flatMap_congr
  intro edge _
  rw [edgeOrigins_reordered h hkeyed]
  exact if_congr (marked_reordered h hkeyed edge) rfl rfl

theorem draft_effects_reordered :
    (p.transferDraft current caller).effects = (q.transferDraft current caller).effects := by
  rw [transferDraft_effects, transferDraft_effects, effectWrites_eq, effectWrites_eq,
    Table.put_append, Table.put_append, localEffectsOf_reordered h hkeyed,
    ← funext (callEffects_reordered h hkeyed)]
  apply Table.put_flatMap_perm (h.calls caller)
  exact (hkeyed.calls_pairwise caller).imp (callEffects_apart hkeyed.digest)

theorem draft_origins_reordered :
    (p.transferDraft current caller).origins = (q.transferDraft current caller).origins := by
  have hkeyed' : q.WellKeyed := hkeyed.reordered h
  rw [transferDraft_origins_eq hkeyed.fresh (hkeyed.localOriginsOf_nodup _),
    transferDraft_origins_eq hkeyed'.fresh (hkeyed'.localOriginsOf_nodup _),
    originWrites_eq, originWrites_eq,
    Table.put_append, Table.put_append, localOriginsOf_reordered h hkeyed,
    ← funext (callOrigins_reordered h hkeyed)]
  apply Table.put_flatMap_perm (h.calls caller)
  exact (hkeyed.calls_pairwise caller).imp (callOrigins_apart hkeyed.digest)

theorem staticReason_reordered {text : String} (hreason : p.StaticReason caller text) :
    q.StaticReason caller text := by
  have hsites {site : SummaryCallSiteProjection} (hsite : site ∈ p.ownerSites caller) :
      site ∈ q.ownerSites caller :=
    (h.callsites.filter _).mem_iff.mp hsite
  have htargets (site : SummaryCallSiteProjection) :
      (p.siteTargets site).Perm (q.siteTargets site) :=
    h.targets.filter _
  have hedges := mem_callerEdges_reordered h hkeyed caller
  cases hreason with
  | own hown => exact .own hown
  | oversized hoversized => exact .oversized (isOversized_reordered h hkeyed _ ▸ hoversized)
  | openSite hsite hopen =>
      apply StaticReason.openSite (hsites hsite)
      exact hopen.imp_right fun hnone => (hnone ▸ (htargets _).symm).eq_nil
  | noBody hsite htarget hnone htext =>
      exact .noBody (hsites hsite) ((htargets _).mem_iff.mp htarget)
        (calleeBodies_reordered h hkeyed _ _ ▸ hnone) htext
  | ambiguous hsite htarget hambiguous =>
      exact .ambiguous (hsites hsite) ((htargets _).mem_iff.mp htarget)
        (calleeBodies_reordered h hkeyed _ _ ▸ hambiguous)
  | missingBinding hedge hindex hnone =>
      exact .missingBinding (hedges.mem_iff.mp hedge) hindex
        (binding_reordered h hkeyed _ _ _ ▸ hnone)
  | incompleteBinding hedge hindex hsome hcomplete =>
      exact .incompleteBinding (hedges.mem_iff.mp hedge) hindex
        (binding_reordered h hkeyed _ _ _ ▸ hsome) hcomplete

end Transfer

/-! ## The solution of a component -/

section Component

variable [Fingerprint] {p q : Problem}

variable (h : Reordered p q) (hkeyed : p.WellKeyed)
include h hkeyed

theorem transfer_reordered (current : Environment) (caller : FunctionSummary) :
    p.transfer current caller = q.transfer current caller := by
  have heffects : (p.transferDraft current caller).effects =
      (q.transferDraft current caller).effects := draft_effects_reordered h hkeyed
  apply Facts.ext
  · simp only [transfer, heffects, h.limits]
  · simp only [transfer, draft_origins_reordered h hkeyed]
  · apply Reasons.ext_mem
    intro text
    rw [mem_transfer_reasons, mem_transfer_reasons, heffects, h.limits]
    apply or_congr
    · exact ⟨staticReason_reordered h hkeyed,
        staticReason_reordered h.symm (hkeyed.reordered h)⟩
    · simp only [(mem_callerEdges_reordered h hkeyed caller).mem_iff]

theorem round_reordered (members : List FunctionSummary) (current : Environment) :
    p.round members current = q.round members current := by
  unfold round
  simp only [transfer_reordered h hkeyed]

theorem iterate_reordered (members : List FunctionSummary) (limit : Nat) :
    ∀ (count : Nat) (current : Environment),
      p.iterate members limit count current = q.iterate members limit count current := by
  induction limit with
  | zero => exact fun _ _ => rfl
  | succ limit ih =>
      intro count current
      have hsettled : p.settled members current = q.settled members current := by
        unfold settled
        simp only [transfer_reordered h hkeyed]
      rw [iterate, iterate, hsettled, round_reordered h hkeyed, ih]

theorem solveMembers_reordered (members : List FunctionSummary) (current : Environment) :
    p.solveMembers members current = q.solveMembers members current := by
  have hsize : p.oversizedMembers members = q.oversizedMembers members := by
    unfold oversizedMembers
    simp only [isOversized_reordered h hkeyed]
  have hcycle : p.solveCycle members current = q.solveCycle members current := by
    unfold solveCycle iterationLimit
    rw [iterate_reordered h hkeyed, hsize, h.limits]
  have hsingle (caller : FunctionSummary) :
      p.solveSingle caller current = q.solveSingle caller current := by
    unfold solveSingle
    rw [transfer_reordered h hkeyed, h.limits]
  unfold solveMembers
  split
  · rw [adjacency_reordered h hkeyed, hcycle, hsingle]
  · exact hcycle

theorem initialEnvironment_reordered :
    p.initialEnvironment = q.initialEnvironment := by
  apply Table.ext_getElem?
  intro id
  unfold initialEnvironment
  rw [Table.getElem?_foldl_insert FunctionSummary.id, Table.getElem?_foldl_insert FunctionSummary.id,
    lastBy_perm h.summaries hkeyed.summaries]
  simp only [localEffectsOf_reordered h hkeyed, localOriginsOf_reordered h hkeyed]

end Component

/-! ## The flows of a caller -/

section Flows

variable [Fingerprint] {p q : Problem} {current : Environment} {caller : FunctionSummary}
  {edge : CallEdge}

/-- The identifier of a flow names its caller and its edge. -/
def FlowId (caller : FunctionSummary) (edge : CallEdge) (id : String) : Prop :=
  ∃ kind rest, id = makeId "interprocedural_flow" (.text kind :: .text caller.id ::
    .text edge.callee.id :: .text edge.site.id :: .text edge.target.targetSymbolId :: rest)

theorem flowId_of_flow {kind : InterproceduralFlowKind} {evidence : DataFlowCertainty}
    {reason : String} {argumentIndex : Option Nat}
    {callerLocationId calleeLocationId callerAccessId : Option String}
    {recorded : InterproceduralFlow}
    (hflow : flow kind caller edge evidence reason argumentIndex callerLocationId
      calleeLocationId callerAccessId = .ok recorded) : FlowId caller edge recorded.id :=
  ⟨_, _, flow_id hflow⟩

theorem flowId_of_argument {location : String} {index : Nat} {recorded : InterproceduralFlow}
    (h : p.argumentFlow caller edge location index = .ok (some recorded)) :
    FlowId caller edge recorded.id := by
  unfold argumentFlow at h
  split at h
  · cases h
  · obtain ⟨made, hmade, hsome⟩ := bind_eq_ok.mp h
    cases hsome
    exact flowId_of_flow hmade

theorem flowId_of_edge : Returns (fun recorded => FlowId caller edge recorded.id)
    (p.edgeFlows current caller edge) := by
  rw [edgeFlows_eq]
  apply Returns.andThen
  · apply Returns.andThen
    · exact .reduceOption (fun _ _ => flowId_of_argument) _
    · intro returned hreturned
      obtain ⟨found, -, hreturned⟩ := bind_eq_ok.mp hreturned
      exact Returns.mapM (fun _ _ => flowId_of_flow) found returned hreturned
  · split
    · intro returned hreturned
      cases hreturned
      simp
    · exact .mapM (fun _ _ => flowId_of_flow) _

/-- Two edges differ in their callsite, their target symbol or their body. -/
def EdgesDiffer (edge other : CallEdge) : Prop :=
  ¬ (edge.site.id = other.site.id ∧ edge.target.targetSymbolId = other.target.targetSymbolId ∧
    edge.callee.id = other.callee.id)

theorem edgeFlows_apart (hdigest : Function.Injective Fingerprint.digest) {other : CallEdge}
    (hne : EdgesDiffer edge other) :
    ReturnsApart InterproceduralFlow.id (p.edgeFlows current caller) edge other := by
  intro returned hreturned returned' hreturned' row hrow row' hrow' hid
  obtain ⟨kind, rest, hrow⟩ := flowId_of_edge returned hreturned row hrow
  obtain ⟨kind', rest', hrow'⟩ := flowId_of_edge returned' hreturned' row' hrow'
  rw [hrow, hrow', (makeId_injective hdigest _).eq_iff] at hid
  simp only [List.cons.injEq, IdValue.text.injEq] at hid
  exact hne ⟨hid.2.2.2.1, hid.2.2.2.2.1, hid.2.2.1⟩

theorem WellKeyed.bodies_pairwise (hkeyed : p.WellKeyed) (caller : FunctionSummary)
    (target : SummaryCallTargetProjection) :
    (p.calleeBodies caller target).1.Pairwise fun body other => body.id ≠ other.id := by
  have hbodies : (p.bodiesOf target.targetSymbolId).Pairwise fun body other =>
      body.id ≠ other.id := by
    rw [bodiesOf, (List.perm_insertionSort _ _).pairwise_iff Ne.symm]
    exact (List.pairwise_map.mp hkeyed.summaries).filter _
  unfold calleeBodies
  dsimp only
  split
  · exact hbodies
  · exact hbodies.filter _

theorem WellKeyed.callEdges_pairwise (hkeyed : p.WellKeyed) (id : String) :
    (p.callEdges id).Pairwise EdgesDiffer := by
  unfold callEdges
  rw [List.pairwise_flatMap]
  constructor
  · intro caller _
    rw [callerEdges_eq_flatMap, List.pairwise_flatMap]
    constructor
    · intro call _
      unfold targetEdges
      rw [List.pairwise_map]
      exact (hkeyed.bodies_pairwise caller call.2).imp fun hne hsame => hne hsame.2.2
    · apply (hkeyed.calls_pairwise caller).imp
      intro call other hne edge hedge edge' hedge' hsame
      rw [(targetEdges_call hedge).1, (targetEdges_call hedge).2, (targetEdges_call hedge').1,
        (targetEdges_call hedge').2] at hsame
      exact hne ⟨hsame.1, hsame.2.1⟩
  · apply ((List.pairwise_map.mp hkeyed.summaries).filter _).imp_of_mem
    intro caller other hcaller hother hne
    have hcaller : caller.id = id := by simpa using (List.mem_filter.mp hcaller).2
    have hother : other.id = id := by simpa using (List.mem_filter.mp hother).2
    exact absurd (hcaller.trans hother.symm) hne

variable (h : Reordered p q) (hkeyed : p.WellKeyed)
include h hkeyed

theorem edgeFlows_reordered (edge : CallEdge) :
    p.edgeFlows current caller edge = q.edgeFlows current caller edge := by
  unfold edgeFlows argumentFlow writebacks
  simp only [binding_reordered h hkeyed, result_reordered h hkeyed]

theorem callerFlows_reordered : StoresAlike InterproceduralFlow.id
    (p.callerFlows current caller) (q.callerFlows current caller) := by
  unfold callerFlows
  rw [← funext (edgeFlows_reordered h hkeyed)]
  apply StoresAlike.flatten_mapM_perm (callEdges_reordered h hkeyed caller.id)
  exact (hkeyed.callEdges_pairwise caller.id).imp (edgeFlows_apart hkeyed.digest)

end Flows

/-! ## The whole solve -/

section Run

variable [Fingerprint] {p q : Problem} {σ : Type} (emit : Emitter σ)

/-- What is left of a publication once the flows are stored. -/
def publishStored (p : Problem) (emit : Emitter σ) (iterationCount : Nat) (run : Run σ)
    (summary : FunctionSummary) (flows : Table InterproceduralFlow) :
    Except SolverError (Run σ) :=
  match run.held.current[summary.id]? with
  | none => throw .keyError
  | some facts => do
      let solved := p.solvedSummary summary facts iterationCount
      let owner ← emit run.owner solved facts.effects facts.origins
      return { run with flows := flows, summaries := run.summaries ++ [solved], owner := owner }

theorem publish_eq_stored (iterationCount : Nat) (run : Run σ) (summary : FunctionSummary) :
    p.publish emit iterationCount run summary =
      (p.callerFlows run.held.current summary).map (run.flows.put InterproceduralFlow.id) >>=
        p.publishStored emit iterationCount run summary := by
  unfold publish publishStored
  cases p.callerFlows run.held.current summary <;> rfl

variable (h : Reordered p q) (hkeyed : p.WellKeyed)
include h hkeyed

theorem solvedSummary_reordered (summary : FunctionSummary) (facts : Facts)
    (iterationCount : Nat) :
    p.solvedSummary summary facts iterationCount = q.solvedSummary summary facts iterationCount := by
  simp only [solvedSummary, isRecursive_reordered h hkeyed, h.limits]

theorem publish_reordered (iterationCount : Nat) (run : Run σ) (summary : FunctionSummary) :
    (p.publish emit iterationCount run summary).toOption =
      (q.publish emit iterationCount run summary).toOption := by
  have hstored : p.publishStored emit iterationCount run summary =
      q.publishStored emit iterationCount run summary := by
    funext flows
    unfold publishStored
    simp only [solvedSummary_reordered h hkeyed]
  rw [publish_eq_stored, publish_eq_stored, toOption_bind, toOption_bind, hstored,
    callerFlows_reordered h hkeyed]

theorem outerCallees_reordered (caller : String) :
    p.outerCallees caller = q.outerCallees caller := by
  unfold outerCallees componentIndex
  rw [components_reordered h hkeyed, adjacency_reordered h hkeyed]

theorem evict_reordered (component : List String) (held : Held) :
    p.evict component held = q.evict component held := by
  unfold evict
  rw [members_reordered h hkeyed]
  simp only [outerCallees_reordered h hkeyed]

theorem solveComponent_reordered (retain : Bool) (run : Run σ) (component : List String) :
    (p.solveComponent emit retain run component).toOption =
      (q.solveComponent emit retain run component).toOption := by
  unfold solveComponent
  dsimp only
  rw [members_reordered h hkeyed, solveMembers_reordered h hkeyed, toOption_bind, toOption_bind,
    funext (evict_reordered h hkeyed component),
    toOption_foldlM _ _ fun run summary _ => publish_reordered emit h hkeyed _ run summary]

theorem initialRun_reordered (owner : σ) : p.initialRun owner = q.initialRun owner := by
  have hcounts : p.remainingCallers = q.remainingCallers := by
    funext id
    rw [remainingCallers_eq, remainingCallers_eq, components_reordered h hkeyed, pending,
      pending, funext (outerCallees_reordered h hkeyed)]
  unfold initialRun
  rw [initialEnvironment_reordered h hkeyed, hcounts]

theorem solveVariant_reordered (retain : Bool) (owner : σ) :
    (p.solveVariant emit retain owner).toOption = (q.solveVariant emit retain owner).toOption := by
  unfold solveVariant
  rw [toOption_bind, toOption_bind, components_reordered h hkeyed, initialRun_reordered h hkeyed,
    toOption_foldlM _ _ fun run component _ =>
      solveComponent_reordered emit h hkeyed retain run component]

end Run

/-! ## Build variants -/

section Variants

variable {p q : Problem}

theorem Reordered.restrictTo (h : Reordered p q) (variant : String) :
    Reordered (p.restrictTo variant) (q.restrictTo variant) where
  summaries := h.summaries.filter _
  localEffects := h.localEffects.filter _
  localOrigins := h.localOrigins.filter _
  bindings := h.bindings.filter _
  resultBindings := h.resultBindings.filter _
  callsites := h.callsites.filter _
  targets := h.targets.filter _
  limits := h.limits

variable [Fingerprint]

theorem WellKeyed.restrictTo (hkeyed : p.WellKeyed) (variant : String) :
    (p.restrictTo variant).WellKeyed where
  digest := hkeyed.digest
  summaries := hkeyed.summaries.sublist (List.filter_sublist.map _)
  effects := hkeyed.effects.sublist (List.filter_sublist.map _)
  origins := hkeyed.origins.sublist (List.filter_sublist.map _)
  callsites := hkeyed.callsites.sublist (List.filter_sublist.map _)
  bindings := hkeyed.bindings.sublist (List.filter_sublist.map _)
  results := hkeyed.results.sublist (List.filter_sublist.map _)
  targets := hkeyed.targets.sublist (List.filter_sublist.map _)
  fresh origin horigin := hkeyed.fresh origin (List.mem_of_mem_filter horigin)

omit [Fingerprint] in
theorem variants_reordered (h : Reordered p q) : p.variants = q.variants := by
  unfold variants
  congr 1
  apply Std.ExtTreeSet.ext_mem
  intro variant
  simp [(h.summaries.map FunctionSummary.buildVariant).mem_iff]

end Variants

/-! ## A sample: two bodies that call each other, listed backwards -/

def reversed (p : Problem) : Problem where
  summaries := p.summaries.reverse
  localEffects := p.localEffects.reverse
  localOrigins := p.localOrigins.reverse
  bindings := p.bindings.reverse
  resultBindings := p.resultBindings.reverse
  callsites := p.callsites.reverse
  targets := p.targets.reverse
  limits := p.limits

theorem reversed_reordered (p : Problem) : Reordered p p.reversed where
  summaries := p.summaries.reverse_perm.symm
  localEffects := p.localEffects.reverse_perm.symm
  localOrigins := p.localOrigins.reverse_perm.symm
  bindings := p.bindings.reverse_perm.symm
  resultBindings := p.resultBindings.reverse_perm.symm
  callsites := p.callsites.reverse_perm.symm
  targets := p.targets.reverse_perm.symm
  limits := rfl

theorem mutualCalls_wellKeyed : @WellKeyed rankedFingerprint (mutualCalls .possible) := by
  refine @WellKeyed.mk rankedFingerprint _ ranked_injective ?_ ?_ ?_ ?_ ?_ ?_ ?_ ?_
  · decide
  · decide
  · decide
  · decide
  · decide
  · decide
  · decide
  · intro origin horigin
    cases horigin

end Problem

end CppContextEngine.Analysis
