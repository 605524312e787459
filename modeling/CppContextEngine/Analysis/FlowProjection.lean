import CppContextEngine.Analysis.IterationLimit
import CppContextEngine.Foundation.Winners

/-!
# The flows of a caller without their winners

The naive construction makes a flow of every eligible effect and every return
origin, in order, and files each under its identifier.  Keeping only the last
one of each parameter and location files the same flows.
-/

namespace CppContextEngine.Analysis

open CppContextEngine.Foundation CppContextEngine.Models

variable [Fingerprint]

namespace Problem

variable (p : Problem)

/-! ## The naive construction -/

/-- The flow of one effect, if the effect may write caller storage. -/
def naiveWriteback (caller : FunctionSummary) (edge : CallEdge) (effect : SummaryEffect) :
    Except SolverError (Option InterproceduralFlow) :=
  match effect.kind, effect.parameterIndex with
  | .write, some index =>
      match edge.callee.parameterModes[index]? with
      | none => .error .indexError
      | some mode =>
          if mode ∈ ["reference", "pointer", "rvalue_reference"] then
            match p.binding? caller edge.site index with
            | none => .ok none
            | some binding =>
                if binding.writebackCandidate then
                  (writebackFlow caller edge index effect binding).map some
                else .ok none
          else .ok none
  | _, _ => .ok none

/-- A flow of every argument, of every eligible effect and of every return origin. -/
def naiveEdgeFlows (current : Environment) (caller : FunctionSummary) (edge : CallEdge) :
    Except SolverError (List InterproceduralFlow) := do
  let arguments ← edge.callee.parameterLocationIds.zipIdx.mapM fun (location, index) =>
    p.argumentFlow caller edge location index
  let written ← (current.effects edge.callee.id).mapM (p.naiveWriteback caller edge)
  let returned ← match p.result? caller edge.site with
    | none => .ok []
    | some result => (current.origins edge.callee.id).mapM (returnFlow caller edge result)
  return arguments.reduceOption ++ written.reduceOption ++ returned

def naiveCallerFlows (current : Environment) (caller : FunctionSummary) :
    Except SolverError (List InterproceduralFlow) :=
  List.flatten <$> (p.callEdges caller.id).mapM (p.naiveEdgeFlows current caller)

/-! ## One flow -/

variable {p} {current : Environment} {caller : FunctionSummary} {edge : CallEdge}

/-- No text that the flows of an edge share is blank. -/
def Accepted (caller : FunctionSummary) (edge : CallEdge) : Prop :=
  [caller.id, edge.callee.id, edge.site.id, edge.target.targetSymbolId,
    edge.site.translationUnitId, edge.site.buildConfigurationId,
    edge.site.buildVariant].all (fun text => !isBlank text) = true

/-- Whether an edge's flow is accepted depends on the edge alone. -/
theorem flow_identified_iff {reason : String}
    (hreason : isBlank reason = false) (values : List IdValue) :
    [makeId "interprocedural_flow" values, caller.id, edge.callee.id, edge.site.id,
      edge.target.targetSymbolId, reason, edge.site.translationUnitId,
      edge.site.buildConfigurationId, edge.site.buildVariant].all
        (fun text => !isBlank text) = true ↔ Accepted caller edge := by
  have hid : isBlank (makeId "interprocedural_flow" values) = false :=
    not_blank_append_left _ (by decide)
  simp [Accepted, hid, hreason]

variable {kind : InterproceduralFlowKind} {evidence : DataFlowCertainty} {reason : String}
  {argumentIndex : Option Nat} {callerLocationId calleeLocationId callerAccessId : Option String}

theorem flow_ok (hreason : isBlank reason = false) (h : Accepted caller edge) :
    ∃ recorded, flow kind caller edge evidence reason argumentIndex callerLocationId
      calleeLocationId callerAccessId = .ok recorded := by
  unfold flow
  rw [dif_pos ((flow_identified_iff hreason _).mpr h)]
  exact ⟨_, rfl⟩

theorem flow_error (hreason : isBlank reason = false) (h : ¬ Accepted caller edge) :
    flow kind caller edge evidence reason argumentIndex callerLocationId calleeLocationId
      callerAccessId = .error .valueError := by
  unfold flow
  rw [dif_neg fun hall => h ((flow_identified_iff hreason _).mp hall)]

theorem flow_id {recorded : InterproceduralFlow}
    (h : flow kind caller edge evidence reason argumentIndex callerLocationId calleeLocationId
      callerAccessId = .ok recorded) :
    recorded.id = makeId "interprocedural_flow"
      [.text (StrEnum.value kind), .text caller.id, .text edge.callee.id, .text edge.site.id,
        .text edge.target.targetSymbolId, .index argumentIndex, .optional callerLocationId,
        .optional calleeLocationId, .optional callerAccessId] := by
  unfold flow at h
  dsimp only at h
  split at h
  · cases h
    rfl
  · cases h

omit [Fingerprint] in
theorem uniform_flows {ι : Type} {make : ι → Except SolverError InterproceduralFlow}
    {items : List ι}
    (hok : Accepted caller edge → ∀ item ∈ items, ∃ recorded, make item = .ok recorded)
    (herror : ¬ Accepted caller edge → ∀ item ∈ items, make item = .error .valueError) :
    Uniform make items := by
  by_cases h : Accepted caller edge
  · exact .inl (hok h)
  · exact .inr ⟨_, herror h⟩

/-! ## Writebacks -/

/-- An effect that may write caller storage, under its winner key. -/
abbrev EligibleWriteback := (Nat × Option String) × SummaryEffect × CallArgumentBinding

/-- The choice that both constructions make of an effect. -/
def eligibleWriteback (p : Problem) (caller : FunctionSummary) (edge : CallEdge)
    (effect : SummaryEffect) : Except SolverError (Option EligibleWriteback) :=
  match effect.kind, effect.parameterIndex with
  | .write, some index =>
      match edge.callee.parameterModes[index]? with
      | none => .error .indexError
      | some mode =>
          if mode ∈ ["reference", "pointer", "rvalue_reference"] then
            match p.binding? caller edge.site index with
            | none => .ok none
            | some binding =>
                if binding.writebackCandidate then
                  .ok (some ((index, effect.locationId), effect, binding))
                else .ok none
          else .ok none
  | _, _ => .ok none

def eligibleFlow (caller : FunctionSummary) (edge : CallEdge) (eligible : EligibleWriteback) :
    Except SolverError InterproceduralFlow :=
  writebackFlow caller edge eligible.1.1 eligible.2.1 eligible.2.2

theorem naiveWriteback_eq (effect : SummaryEffect) : p.naiveWriteback caller edge effect =
    makeChosen (p.eligibleWriteback caller edge) (eligibleFlow caller edge) effect := by
  unfold naiveWriteback makeChosen eligibleWriteback
  split
  · split
    · rfl
    · split
      · split
        · rfl
        · split <;> rfl
      · rfl
  · rfl

omit [Fingerprint] in
/-- Filling the dictionary of winners collects the eligible effects first. -/
theorem writebacks_eq : p.writebacks current caller edge =
    (collectChosen (p.eligibleWriteback caller edge) (current.effects edge.callee.id)).map
      winners := by
  unfold writebacks
  refine Eq.trans ?_ (foldlM_chosen (p.eligibleWriteback caller edge)
    (fun found entry => upsert found entry.1 entry.2) (current.effects edge.callee.id) [])
  congr 1
  funext found effect
  unfold eligibleWriteback
  cases effect.kind with
  | read => rfl
  | escape => rfl
  | write =>
      cases effect.parameterIndex with
      | none => rfl
      | some index =>
          dsimp only
          cases edge.callee.parameterModes[index]? with
          | none => rfl
          | some mode =>
              dsimp only
              by_cases hmode : mode ∈ ["reference", "pointer", "rvalue_reference"]
              · rw [if_pos hmode, if_pos hmode]
                cases p.binding? caller edge.site index with
                | none => rfl
                | some binding => cases h : binding.writebackCandidate <;> simp [h, Except.map]
              · rw [if_neg hmode, if_neg hmode]
                rfl

omit [Fingerprint] in
theorem mem_eligible {effects : List SummaryEffect} {found : List EligibleWriteback}
    (h : collectChosen (p.eligibleWriteback caller edge) effects = .ok found)
    {eligible : EligibleWriteback} (hmem : eligible ∈ found) :
    p.binding? caller edge.site eligible.1.1 = some eligible.2.2 ∧
      eligible.2.1.locationId = eligible.1.2 := by
  obtain ⟨effect, heffect⟩ := exists_of_mem_chosen h hmem
  unfold eligibleWriteback at heffect
  split at heffect
  · split at heffect
    · cases heffect
    · split at heffect
      · split at heffect
        · cases heffect
        · split at heffect
          · cases heffect
            exact ⟨‹_›, rfl⟩
          · cases heffect
      · cases heffect
  · cases heffect

omit [Fingerprint] in
theorem writebackReason_given :
    isBlank "callee parameter side effect may write caller storage" = false := by
  decide

theorem eligibleFlow_uniform (found : List EligibleWriteback) :
    Uniform (eligibleFlow caller edge) found :=
  uniform_flows (fun haccepted _ _ => flow_ok writebackReason_given haccepted)
    fun hrejected _ _ => flow_error writebackReason_given hrejected

/-- Among the eligible effects of one edge, winner keys and flow identifiers agree. -/
theorem eligibleFlow_id_iff (hdigest : Function.Injective Fingerprint.digest)
    {effects : List SummaryEffect} {found : List EligibleWriteback}
    (h : collectChosen (p.eligibleWriteback caller edge) effects = .ok found)
    {a b : EligibleWriteback} (ha : a ∈ found) (hb : b ∈ found) {flowA flowB : InterproceduralFlow}
    (hflowA : eligibleFlow caller edge a = .ok flowA)
    (hflowB : eligibleFlow caller edge b = .ok flowB) :
    a.1 = b.1 ↔ flowA.id = flowB.id := by
  obtain ⟨hbindingA, hlocationA⟩ := mem_eligible h ha
  obtain ⟨hbindingB, hlocationB⟩ := mem_eligible h hb
  rw [flow_id hflowA, flow_id hflowB, (makeId_injective hdigest _).eq_iff]
  simp only [List.cons.injEq, IdValue.index.injEq, IdValue.optional.injEq, Option.some.injEq,
    true_and, and_true]
  constructor
  · intro hkey
    rw [hkey, hbindingB, Option.some.injEq] at hbindingA
    rw [hlocationA, hlocationB, hkey, hbindingA]
    simp
  · rintro ⟨hindex, -, hlocation⟩
    exact Prod.ext hindex (by rw [← hlocationA, ← hlocationB, hlocation])

theorem writebacks_alike (hdigest : Function.Injective Fingerprint.digest) :
    StoresAlike InterproceduralFlow.id
      (p.writebacks current caller edge >>= fun found => found.mapM (eligibleFlow caller edge))
      (((current.effects edge.callee.id).mapM (p.naiveWriteback caller edge)).map
        List.reduceOption) := by
  intro t
  have hnaive : p.naiveWriteback caller edge =
      makeChosen (p.eligibleWriteback caller edge) (eligibleFlow caller edge) :=
    funext naiveWriteback_eq
  have hmap (rows : Except SolverError (List InterproceduralFlow)) :
      (rows.map (t.put InterproceduralFlow.id)).toOption =
        rows.toOption.map (t.put InterproceduralFlow.id) := by
    cases rows <;> rfl
  rw [hmap (Except.map _ _), hnaive, mapM_makeChosen_toOption, ← hmap, writebacks_eq]
  cases hfound : collectChosen (p.eligibleWriteback caller edge)
      (current.effects edge.callee.id) with
  | error error => rfl
  | ok found =>
      exact congrArg _ (put_mapM_winners (eligibleFlow_uniform found)
        (fun a ha b hb _ _ => eligibleFlow_id_iff hdigest hfound ha hb) t)

/-! ## Returns -/

omit [Fingerprint] in
theorem returnReason_given :
    isBlank "callee return origin reaches the caller's call-result definition" = false := by
  decide

theorem returnFlow_uniform (result : CallResultBinding)
    (entries : List (Option String × SummaryReturnOrigin)) :
    Uniform (fun entry => returnFlow caller edge result entry.2) entries :=
  uniform_flows (fun haccepted _ _ => flow_ok returnReason_given haccepted)
    fun hrejected _ _ => flow_error returnReason_given hrejected

/-- Origins under their locations. -/
def located (origins : List SummaryReturnOrigin) : List (Option String × SummaryReturnOrigin) :=
  origins.map fun origin => (origin.locationId, origin)

omit [Fingerprint] in
theorem returnLocations_eq : returnLocations current edge =
    (winners (located (current.origins edge.callee.id))).map Prod.snd := by
  rw [returnLocations, winners, located, List.foldl_map]

theorem returnFlow_id_iff (hdigest : Function.Injective Fingerprint.digest)
    {result : CallResultBinding} {a b : SummaryReturnOrigin} {flowA flowB : InterproceduralFlow}
    (hflowA : returnFlow caller edge result a = .ok flowA)
    (hflowB : returnFlow caller edge result b = .ok flowB) :
    a.locationId = b.locationId ↔ flowA.id = flowB.id := by
  rw [flow_id hflowA, flow_id hflowB, (makeId_injective hdigest _).eq_iff]
  simp

theorem returns_alike (hdigest : Function.Injective Fingerprint.digest)
    (result : CallResultBinding) :
    StoresAlike InterproceduralFlow.id
      ((returnLocations current edge).mapM (returnFlow caller edge result))
      ((current.origins edge.callee.id).mapM (returnFlow caller edge result)) := by
  apply StoresAlike.of_eq
  intro t
  have hsnd (entries : List (Option String × SummaryReturnOrigin)) :
      (entries.map Prod.snd).mapM (returnFlow caller edge result) =
        entries.mapM fun entry => returnFlow caller edge result entry.2 :=
    List.mapM_map
  have hlocated : (located (current.origins edge.callee.id)).map Prod.snd =
      current.origins edge.callee.id := by
    rw [located, List.map_map]
    exact List.map_id _
  rw [returnLocations_eq, hsnd, put_mapM_winners (returnFlow_uniform result _), ← hsnd, hlocated]
  intro a ha b hb _ _ hflowA hflowB
  obtain ⟨originA, -, rfl⟩ := List.mem_map.mp ha
  obtain ⟨originB, -, rfl⟩ := List.mem_map.mp hb
  exact returnFlow_id_iff hdigest hflowA hflowB

/-! ## The flows of an edge and of a caller -/

theorem edgeFlows_eq : p.edgeFlows current caller edge =
    andThen (andThen
      ((edge.callee.parameterLocationIds.zipIdx.mapM fun (location, index) =>
        p.argumentFlow caller edge location index).map List.reduceOption)
      (p.writebacks current caller edge >>= fun found => found.mapM (eligibleFlow caller edge)))
      (match p.result? caller edge.site with
        | none => .ok []
        | some result => (returnLocations current edge).mapM (returnFlow caller edge result)) := by
  unfold edgeFlows andThen
  cases (edge.callee.parameterLocationIds.zipIdx.mapM fun (location, index) =>
      p.argumentFlow caller edge location index : Except SolverError _) with
  | error error => rfl
  | ok arguments =>
      cases p.writebacks current caller edge with
      | error error => rfl
      | ok found =>
          change (found.mapM (eligibleFlow caller edge) >>= _) =
            ((found.mapM (eligibleFlow caller edge) >>= _) >>= _)
          cases found.mapM (eligibleFlow caller edge) with
          | error error => rfl
          | ok written => cases p.result? caller edge.site <;> rfl

theorem naiveEdgeFlows_eq : p.naiveEdgeFlows current caller edge =
    andThen (andThen
      ((edge.callee.parameterLocationIds.zipIdx.mapM fun (location, index) =>
        p.argumentFlow caller edge location index).map List.reduceOption)
      (((current.effects edge.callee.id).mapM (p.naiveWriteback caller edge)).map
        List.reduceOption))
      (match p.result? caller edge.site with
        | none => .ok []
        | some result =>
            (current.origins edge.callee.id).mapM (returnFlow caller edge result)) := by
  unfold naiveEdgeFlows andThen
  cases (edge.callee.parameterLocationIds.zipIdx.mapM fun (location, index) =>
      p.argumentFlow caller edge location index : Except SolverError _) with
  | error error => rfl
  | ok arguments =>
      cases (current.effects edge.callee.id).mapM (p.naiveWriteback caller edge) with
      | error error => rfl
      | ok written => cases p.result? caller edge.site <;> rfl

theorem edgeFlows_alike (hdigest : Function.Injective Fingerprint.digest) :
    StoresAlike InterproceduralFlow.id (p.edgeFlows current caller edge)
      (p.naiveEdgeFlows current caller edge) := by
  rw [edgeFlows_eq, naiveEdgeFlows_eq]
  apply StoresAlike.andThen
  · exact .andThen (.refl _) (writebacks_alike hdigest)
  · cases p.result? caller edge.site with
    | none => exact .refl _
    | some result => exact returns_alike hdigest result

/--
Whatever flows are stored already, recording the flows of a caller from the
winners alone leaves the same flows as making one of every effect and origin.
-/
theorem record_flows_naive (hdigest : Function.Injective Fingerprint.digest) (p : Problem)
    (current : Environment) (caller : FunctionSummary) (flows : Table InterproceduralFlow) :
    ((p.callerFlows current caller).map (flows.put InterproceduralFlow.id)).toOption =
      ((p.naiveCallerFlows current caller).map (flows.put InterproceduralFlow.id)).toOption :=
  StoresAlike.flatten_mapM (fun _ _ => edgeFlows_alike hdigest) flows

/-! ## A sample: two writes of one parameter -/

omit [Fingerprint]

/-- `g(T& x)` writes `x` twice, the second time possibly, and returns it. -/
def twiceWritten : Problem where
  summaries :=
    [callerBody,
      { calleeBody with parameterModes := ["reference"], parameterLocationIds := ["x"] }]
  localEffects := []
  localOrigins := []
  bindings :=
    [{ id := "binding", callerSummaryId := "f", callsiteId := "site", argumentIndex := 0,
       locationId := some "counter", locationKind := .global, parameterIndex := none,
       accessPath := [], writebackCandidate := true, complete := true,
       identified := by decide, agrees := by decide }]
  resultBindings := []
  callsites := [sampleCall]
  targets := [sampleTarget]
  limits := .standard

/-- What `g` does to its parameter. -/
def twiceWrittenFacts : Environment :=
  (∅ : Environment).insert "g"
    { effects := [{ rawWrite "first" "g" "x" with parameterIndex := some 0 },
        { rawWrite "second" "g" "x" with parameterIndex := some 0, certainty := .possible }]
      origins := []
      reasons := Reasons.ofLocal calleeBody }

theorem record_flows_naive_twice :
    ((@callerFlows rankedFingerprint twiceWritten twiceWrittenFacts (rawSummary "f" "F")).map
      (Table.put InterproceduralFlow.id ∅)).toOption =
    ((@naiveCallerFlows rankedFingerprint twiceWritten twiceWrittenFacts (rawSummary "f" "F")).map
      (Table.put InterproceduralFlow.id ∅)).toOption :=
  @record_flows_naive rankedFingerprint ranked_injective twiceWritten twiceWrittenFacts
    (rawSummary "f" "F") ∅

end Problem

end CppContextEngine.Analysis
