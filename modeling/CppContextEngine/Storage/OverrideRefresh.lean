import CppContextEngine.Ingestion.OverrideCandidates

/-!
# Override candidates in the database

The store rebuilds the candidates of a build with one recursive query over its
tables.  It inserts just the rows of the targets that the client would add.
-/

namespace CppContextEngine.Storage

open CppContextEngine.Foundation CppContextEngine.Models CppContextEngine.Ingestion

/-! ## Rows -/

/-- The columns of `callsites` that the query reads. -/
structure CallSiteRow where
  id : Identifier
  dispatchKind : String
  expansionSpanJson : String
  staticTargetSymbolId : Option Identifier
  translationUnitId : String
  buildConfigurationId : String
  buildVariant : String
  deriving DecidableEq

/-- A row of `call_targets`. -/
structure CallTargetRow where
  id : String
  callsiteId : Identifier
  targetSymbolId : Identifier
  certainty : String
  confidence : Rat
  confidenceReason : String
  derivation : String
  evidenceSpanJson : String
  translationUnitId : String
  buildConfigurationId : String
  buildVariant : String
  deriving DecidableEq

/-- The columns of `edges` that the query reads. -/
structure EdgeRow where
  sourceId : Identifier
  targetId : Identifier
  relation : String
  buildVariant : String
  deriving DecidableEq

/-- The tables of one project. -/
structure CallTables where
  callsites : List CallSiteRow
  callTargets : List CallTargetRow
  edges : List EdgeRow

section Put

variable (spanJson : SourceSpan → String)

/-- What `_put_call_facts` writes for a callsite; `spanJson` is `_span_json`. -/
def callSiteRow (site : CallSite) : CallSiteRow where
  id := site.id
  dispatchKind := StrEnum.value site.dispatchKind
  expansionSpanJson := spanJson site.expansionSpan
  staticTargetSymbolId := site.staticTargetSymbolId
  translationUnitId := site.translationUnitId
  buildConfigurationId := site.buildConfigurationId
  buildVariant := site.buildVariant

/-- What `_put_call_facts` writes for a target. -/
def callTargetRow (target : CallTarget) : CallTargetRow where
  id := target.id
  callsiteId := target.callsiteId
  targetSymbolId := target.targetSymbolId
  certainty := StrEnum.value target.certainty
  confidence := target.confidence
  confidenceReason := target.confidenceReason
  derivation := target.derivation
  evidenceSpanJson := spanJson target.evidenceSpan
  translationUnitId := target.translationUnitId
  buildConfigurationId := target.buildConfigurationId
  buildVariant := target.buildVariant

def edgeRow (edge : GraphEdge) : EdgeRow where
  sourceId := edge.sourceId
  targetId := edge.targetId
  relation := StrEnum.value edge.relation
  buildVariant := edge.buildVariant

/-- The tables that hold the facts of a batch. -/
def putCallFacts (facts : CallFacts) : CallTables where
  callsites := facts.callsites.map (callSiteRow spanJson)
  callTargets := facts.targets.map (callTargetRow spanJson)
  edges := facts.edges.map edgeRow

end Put

/-! ## The query -/

section Query

variable (tables : CallTables) (variant : String)

/-- `FROM edges WHERE … relation = 'overrides'` -/
def overrideEdges : List EdgeRow :=
  tables.edges.filter fun edge => edge.buildVariant = variant ∧ edge.relation = "overrides"

/-- The first part of `override_closure`. -/
def closureStart : List (Identifier × Identifier) :=
  (overrideEdges tables variant).map fun edge => (edge.targetId, edge.sourceId)

/-- The part of `override_closure` that joins it with `edges`. -/
def closureStep (closure : Identifier × Identifier) : List (Identifier × Identifier) :=
  ((overrideEdges tables variant).filter fun edge => edge.targetId = closure.2).map fun edge =>
    (closure.1, edge.sourceId)

/-- `override_closure`, with so many rows at most. -/
def overrideClosure (fuel : Nat) : Option (List (Identifier × Identifier)) :=
  recursiveUnion (closureStep tables variant) fuel (enqueue [] [] (closureStart tables variant)) []

/-- The join and the conditions of the outer query, for one row of the closure. -/
def joinSites (closure : Identifier × Identifier) : List (CallSiteRow × Identifier) :=
  (tables.callsites.filter fun site => site.staticTargetSymbolId = some closure.1 ∧
    site.buildVariant = variant ∧ site.dispatchKind = "virtual" ∧
    ∀ existing ∈ tables.callTargets, ¬ (existing.callsiteId = site.id ∧
      existing.targetSymbolId = closure.2)).map fun site => (site, closure.2)

/-- `ORDER BY sites.id, closure.target_id` -/
def rowOrder (first second : CallSiteRow × Identifier) : Bool :=
  [first.1.id.val, first.2.val] ≤ [second.1.id.val, second.2.val]

def selectCandidates (fuel : Nat) : Option (List (CallSiteRow × Identifier)) := do
  let closure ← overrideClosure tables variant fuel
  return (closure.flatMap (joinSites tables variant)).mergeSort rowOrder

variable [NativeLibrary]

/-- `_stable_id` -/
def stableId (kind : String) (parts : List String) : String :=
  kind ++ "_" ++ String.ofList
    ((NativeLibrary.hexdigest (parts.flatMap fun part => utf8 part ++ [0])).toList.take 32)

/-- The row that is inserted for a result of the query. -/
def candidateRow (row : CallSiteRow × Identifier) : CallTargetRow where
  id := stableId "call_target" [row.1.buildVariant, row.1.buildConfigurationId,
    row.1.translationUnitId, row.1.id, row.2, StrEnum.value CallTargetCertainty.possible,
    "indexed_override_candidate"]
  callsiteId := row.1.id
  targetSymbolId := row.2
  certainty := "possible"
  confidence := 1 / 2
  confidenceReason := "target overrides the statically selected virtual method in this build; " ++
    "the value is deterministic ranking evidence, not a probability"
  derivation := "indexed_override_candidate"
  evidenceSpanJson := row.1.expansionSpanJson
  translationUnitId := row.1.translationUnitId
  buildConfigurationId := row.1.buildConfigurationId
  buildVariant := row.1.buildVariant

/-- `DELETE FROM call_targets WHERE … derivation = ?` -/
def deleteCandidates : CallTables :=
  { tables with
    callTargets := tables.callTargets.filter fun target =>
      ¬ (target.buildVariant = variant ∧ target.derivation = "indexed_override_candidate") }

/-- `_refresh_indexed_override_candidates`, with so many rows of the closure at most. -/
def refreshIndexedOverrideCandidates (fuel : Nat) : Option CallTables := do
  let kept := deleteCandidates tables variant
  let rows ← selectCandidates kept variant fuel
  return { kept with callTargets := kept.callTargets ++ rows.map candidateRow }

end Query

/-! ## What the query returns -/

section Closure

variable {spanJson : SourceSpan → String} {facts : CallFacts} {variant : String}

theorem mem_overrideEdges {target source : Identifier} :
    (∃ edge ∈ overrideEdges (putCallFacts spanJson facts) variant,
      edge.targetId = target ∧ edge.sourceId = source) ↔
        Overrides facts.edges variant target source := by
  have hrelation (edge : GraphEdge) :
      StrEnum.value edge.relation = "overrides" ↔ edge.relation = .overrides :=
    StrEnum.value_injective.eq_iff' rfl
  unfold overrideEdges putCallFacts Overrides
  constructor
  · rintro ⟨row, hrow, rfl, rfl⟩
    obtain ⟨hrow, hcondition⟩ := List.mem_filter.mp hrow
    obtain ⟨edge, hedge, rfl⟩ := List.mem_map.mp hrow
    obtain ⟨hvariant, hoverrides⟩ := of_decide_eq_true hcondition
    exact ⟨edge, hedge, (hrelation edge).mp hoverrides, hvariant, rfl, rfl⟩
  · rintro ⟨edge, hedge, hoverrides, hvariant, rfl, rfl⟩
    exact ⟨edgeRow edge, List.mem_filter.mpr ⟨List.mem_map_of_mem hedge,
      decide_eq_true ⟨hvariant, (hrelation edge).mpr hoverrides⟩⟩, rfl, rfl⟩

theorem mem_closureStart {base target : Identifier} :
    (base, target) ∈ closureStart (putCallFacts spanJson facts) variant ↔
      Overrides facts.edges variant base target := by
  rw [← @mem_overrideEdges spanJson]
  unfold closureStart
  simp only [List.mem_map, Prod.mk.injEq]

theorem mem_closureStep {closure : Identifier × Identifier} {base target : Identifier} :
    (base, target) ∈ closureStep (putCallFacts spanJson facts) variant closure ↔
      base = closure.1 ∧ Overrides facts.edges variant closure.2 target := by
  rw [← @mem_overrideEdges spanJson]
  unfold closureStep
  simp only [List.mem_map, List.mem_filter, decide_eq_true_eq, Prod.mk.injEq]
  constructor
  · rintro ⟨edge, ⟨hedge, htarget⟩, rfl, rfl⟩
    exact ⟨rfl, edge, hedge, htarget, rfl⟩
  · rintro ⟨rfl, edge, hedge, htarget, rfl⟩
    exact ⟨edge, ⟨hedge, htarget⟩, rfl, rfl⟩

/-- A row of the closure is a base and what overrides it in one or more steps. -/
theorem leads_closure {base target : Identifier} :
    Leads (closureStep (putCallFacts spanJson facts) variant)
        (closureStart (putCallFacts spanJson facts) variant) (base, target) ↔
      Relation.TransGen (Overrides facts.edges variant) base target := by
  constructor
  · rintro ⟨first, hfirst, hpath⟩
    suffices h : ∀ row, Relation.ReflTransGen
        (fun a b => b ∈ closureStep (putCallFacts spanJson facts) variant a) first row →
          Relation.TransGen (Overrides facts.edges variant) row.1 row.2 from h _ hpath
    intro row hrow
    induction hrow with
    | refl => exact .single (mem_closureStart.mp hfirst)
    | tail _ hnext ih =>
        obtain ⟨hbase, hoverrides⟩ := mem_closureStep.mp hnext
        rw [hbase]
        exact ih.tail hoverrides
  · intro h
    induction h with
    | single hoverrides => exact ⟨_, mem_closureStart.mpr hoverrides, .refl⟩
    | tail _ hoverrides ih =>
        obtain ⟨first, hfirst, hpath⟩ := ih
        exact ⟨first, hfirst, hpath.tail (mem_closureStep.mpr ⟨rfl, hoverrides⟩)⟩

/-- As many rows as a closure can have, in any build. -/
def closureBound (edges : List GraphEdge) : Nat :=
  ((edges.map GraphEdge.targetId).product (edges.map GraphEdge.sourceId)).length

theorem exists_overrideClosure {fuel : Nat} (hfuel : closureBound facts.edges ≤ fuel) :
    ∃ closure, overrideClosure (putCallFacts spanJson facts) variant fuel = some closure ∧
      closure.Nodup ∧ ∀ base target, (base, target) ∈ closure ↔
        Relation.TransGen (Overrides facts.edges variant) base target := by
  set tables := putCallFacts spanJson facts
  have hstart (row : Identifier × Identifier) :
      row ∈ enqueue [] [] (closureStart tables variant) ↔ row ∈ closureStart tables variant := by
    have := @mem_enqueue _ _ row [] (closureStart tables variant) []
    simpa using this
  have hnodup : ([] ++ enqueue [] [] (closureStart tables variant)).Nodup :=
    nodup_enqueue List.nodup_nil
  have hmem {base target : Identifier} (hbase : base ∈ facts.edges.map GraphEdge.targetId)
      {overridden : Identifier} (h : Overrides facts.edges variant overridden target) :
      (base, target) ∈ (facts.edges.map GraphEdge.targetId).product
        (facts.edges.map GraphEdge.sourceId) := by
    obtain ⟨edge, hedge, -, -, -, rfl⟩ := h
    exact List.mem_product.mpr ⟨hbase, List.mem_map_of_mem hedge⟩
  obtain ⟨closure, hclosure⟩ := @recursiveUnion_isSome _ _ (closureStep tables variant)
    ((facts.edges.map GraphEdge.targetId).product (facts.edges.map GraphEdge.sourceId))
    (by
      rintro ⟨base, source⟩ hrow ⟨base', target⟩ hother
      obtain ⟨rfl, hoverrides⟩ := mem_closureStep.mp hother
      exact hmem (List.mem_product.mp hrow).1 hoverrides)
    fuel _ [] hnodup
    (by
      rintro ⟨base, target⟩ hrow
      have hoverrides := mem_closureStart.mp ((hstart _).mp hrow)
      obtain ⟨edge, hedge, -, -, hbase, -⟩ := id hoverrides
      exact hmem (hbase ▸ List.mem_map_of_mem hedge) hoverrides)
    hfuel
  have hprogress := recursiveUnion_progress hclosure hnodup (Progress.initial hstart)
  exact ⟨closure, hclosure, hprogress.nodup, fun base target => hprogress.mem_iff.trans leads_closure⟩

/-! ## The rows that are inserted -/

/-- The rows that the query joins with the closure. -/
theorem mem_joinSites {closure : Identifier × Identifier} {site : CallSiteRow}
    {target : Identifier} :
    (site, target) ∈ joinSites (putCallFacts spanJson facts) variant closure ↔
      target = closure.2 ∧ ∃ found ∈ facts.callsites, site = callSiteRow spanJson found ∧
        found.dispatchKind = .virtual ∧ found.staticTargetSymbolId = some closure.1 ∧
        found.buildVariant = variant ∧
        ∀ known ∈ facts.targets, targetKey known ≠ (found.id, target) := by
  have hkind (found : CallSite) :
      StrEnum.value found.dispatchKind = "virtual" ↔ found.dispatchKind = .virtual :=
    StrEnum.value_injective.eq_iff' rfl
  have hnew (found : CallSite) : (∀ existing ∈ (putCallFacts spanJson facts).callTargets,
      ¬ (existing.callsiteId = found.id ∧ existing.targetSymbolId = closure.2)) ↔
        ∀ known ∈ facts.targets, targetKey known ≠ (found.id, closure.2) := by
    unfold putCallFacts targetKey
    simp only [List.forall_mem_map, callTargetRow, ne_eq, Prod.mk.injEq]
  unfold joinSites
  rw [List.mem_map]
  constructor
  · rintro ⟨row, hrow, hpair⟩
    obtain ⟨rfl, rfl⟩ := Prod.mk.inj hpair
    obtain ⟨hrow, hcondition⟩ := List.mem_filter.mp hrow
    obtain ⟨found, hfound, rfl⟩ := List.mem_map.mp hrow
    obtain ⟨hstatic, hvariant, hvirtual, habsent⟩ := of_decide_eq_true hcondition
    exact ⟨rfl, found, hfound, rfl, (hkind found).mp hvirtual, hstatic, hvariant,
      (hnew found).mp habsent⟩
  · rintro ⟨rfl, found, hfound, rfl, hvirtual, hstatic, hvariant, habsent⟩
    exact ⟨callSiteRow spanJson found, List.mem_filter.mpr ⟨List.mem_map_of_mem hfound,
      decide_eq_true ⟨hstatic, hvariant, (hkind found).mpr hvirtual, (hnew found).mpr habsent⟩⟩,
      rfl⟩

/-- The results of the query are the candidates of the build's callsites, each once. -/
theorem exists_selectCandidates {fuel : Nat} (hfuel : closureBound facts.edges ≤ fuel) :
    ∃ rows, selectCandidates (putCallFacts spanJson facts) variant fuel = some rows ∧
      (rows.map fun row => (row.1.id, row.2)).Nodup ∧
      ∀ site target, (site, target) ∈ rows ↔ ∃ found ∈ facts.callsites,
        site = callSiteRow spanJson found ∧ found.buildVariant = variant ∧
        IsCandidate facts.targets facts.edges found target := by
  obtain ⟨closure, hclosure, hnodup, hmem⟩ :=
    @exists_overrideClosure spanJson facts variant fuel hfuel
  set tables := putCallFacts spanJson facts
  have hrows (site : CallSiteRow) (target : Identifier) :
      (site, target) ∈ (closure.flatMap (joinSites tables variant)).mergeSort rowOrder ↔
        ∃ found ∈ facts.callsites, site = callSiteRow spanJson found ∧
          found.buildVariant = variant ∧ IsCandidate facts.targets facts.edges found target := by
    rw [List.mem_mergeSort, List.mem_flatMap]
    constructor
    · rintro ⟨⟨base, target'⟩, hrow, hjoin⟩
      obtain ⟨rfl, found, hfound, rfl, hvirtual, hstatic, rfl, hnew⟩ := mem_joinSites.mp hjoin
      exact ⟨found, hfound, rfl, rfl, hvirtual, ⟨base, hstatic, (hmem _ _).mp hrow⟩, hnew⟩
    · rintro ⟨found, hfound, rfl, rfl, hvirtual, ⟨base, hstatic, hpath⟩, hnew⟩
      exact ⟨(base, target), (hmem _ _).mpr hpath,
        mem_joinSites.mpr ⟨rfl, found, hfound, rfl, hvirtual, hstatic, rfl, hnew⟩⟩
  refine ⟨_, by rw [selectCandidates, hclosure]; rfl, ?_, hrows⟩
  have hperm := List.mergeSort_perm (closure.flatMap (joinSites tables variant)) rowOrder
  rw [(hperm.map _).nodup_iff]
  have hids : (tables.callsites.map CallSiteRow.id).Nodup := by
    have := facts.callsitesNodup
    simpa [tables, putCallFacts, callSiteRow, Function.comp_def] using this
  refine List.Nodup.map_on ?_ ?_
  · -- an identifier is that of one callsite
    rintro ⟨site, target⟩ hrow ⟨other, target'⟩ hother hkey
    obtain ⟨hid, rfl⟩ := Prod.mk.inj hkey
    obtain ⟨_, _, hrow⟩ := List.mem_flatMap.mp hrow
    obtain ⟨_, _, hother⟩ := List.mem_flatMap.mp hother
    obtain ⟨-, first, hfirst, rfl, -⟩ := mem_joinSites.mp hrow
    obtain ⟨-, second, hsecond, rfl, -⟩ := mem_joinSites.mp hother
    rw [List.inj_on_of_nodup_map facts.callsitesNodup hfirst hsecond hid]
  · rw [List.nodup_flatMap]
    refine ⟨fun row _ => ?_, hnodup.imp_of_mem fun {row other} hrow hother hne => ?_⟩
    · exact ((hids.of_map _).filter _).map fun _ _ h => (Prod.mk.inj h).1
    · rintro ⟨site, target⟩ hfirst hsecond
      obtain ⟨htarget, found, hfound, rfl, -, hstatic, -⟩ := mem_joinSites.mp hfirst
      obtain ⟨htarget', found', hfound', heq, -, hstatic', -⟩ := mem_joinSites.mp hsecond
      have hid : found.id = found'.id := congrArg CallSiteRow.id heq
      rw [List.inj_on_of_nodup_map facts.callsitesNodup hfound hfound' hid, hstatic'] at hstatic
      exact hne (Prod.ext (Option.some.inj hstatic).symm (htarget.symm.trans htarget'))

end Closure

/-! ## Agreement -/

section Agreement

variable [NativeLibrary] {spanJson : SourceSpan → String} {facts : CallFacts}

/-- The row of a candidate of the query is that of the target that the client makes. -/
theorem candidateRow_eq (site : CallSite) (target : Identifier) :
    candidateRow (callSiteRow spanJson site, target) =
      callTargetRow spanJson (candidate site target) := rfl

omit [NativeLibrary] in
theorem deleteCandidates_put (variant : String) :
    deleteCandidates (putCallFacts spanJson facts) variant = putCallFacts spanJson facts := by
  have hkeep : (facts.targets.map (callTargetRow spanJson)).filter (fun target =>
      ¬ (target.buildVariant = variant ∧ target.derivation = "indexed_override_candidate")) =
        facts.targets.map (callTargetRow spanJson) := by
    rw [List.filter_eq_self]
    intro row hrow
    obtain ⟨target, htarget, rfl⟩ := List.mem_map.mp hrow
    rw [decide_eq_true_eq]
    rintro ⟨-, hderivation⟩
    exact facts.underived target htarget (Subtype.ext hderivation)
  unfold deleteCandidates putCallFacts
  simp only [hkeep]

/-- The candidates of a build among the targets of a batch. -/
def candidatesOf (variant : String) (targets : List CallTarget) : List CallTarget :=
  targets.filter fun target => target.derivation = overrideDerivation ∧ target.buildVariant = variant

end Agreement

end CppContextEngine.Storage
