import CppContextEngine.Analysis.Completeness

/-!
# Certainty never overclaims

Every propagated fact has a call path to a local fact, and its location is that
fact's location read through the argument bindings along the path.  A certain
fact has a path of certain targets with one body each to a certain local fact.
-/

namespace CppContextEngine.Analysis

open CppContextEngine.Foundation CppContextEngine.Models

namespace Problem

/-! ## Paths -/

/-- One step of a call path: the calling body and the resolved call it takes. -/
structure Hop where
  caller : FunctionSummary
  edge : CallEdge

/-- The hops lead from the first body to the last. -/
inductive CallPath (p : Problem) : FunctionSummary → List Hop → FunctionSummary → Prop where
  | nil (summary : FunctionSummary) : CallPath p summary [] summary
  | cons {caller callee last : FunctionSummary} {edge : CallEdge} {hops : List Hop} :
      edge ∈ p.callerEdges caller → p.summaryById edge.callee.id = some callee →
      CallPath p callee hops last → CallPath p caller (⟨caller, edge⟩ :: hops) last

/-- The target is certain and has a single body. -/
def Hop.Certain (p : Problem) (hop : Hop) : Prop :=
  hop.edge.target.certainty = .certain ∧
    p.calleeBodies hop.caller hop.edge.target = ([hop.edge.callee], false)

/-- The caller asks for what the callee returns. -/
def Hop.Marked (p : Problem) (hop : Hop) : Prop :=
  ∃ marker ∈ p.localOriginsOf hop.caller.id, marker.kind = .callResult ∧
    marker.callsiteId = some hop.edge.site.id

/-! ## Locations along a path -/

def effectPlaceOf (effect : SummaryEffect) : Place MemoryLocationKind :=
  ⟨effect.locationKind, effect.parameterIndex, effect.accessPath, effect.locationId⟩

def originPlaceOf (origin : SummaryReturnOrigin) : Place (Option MemoryLocationKind) :=
  ⟨origin.locationKind, origin.parameterIndex, origin.accessPath, origin.locationId⟩

/-- The place of the argument that is bound to a parameter, extended by the path into it. -/
def boundPlace {κ : Type} (kind : MemoryLocationKind → κ) (binding : CallArgumentBinding)
    (accessPath : List String) : Place κ :=
  ⟨kind binding.locationKind, binding.parameterIndex,
    (binding.accessPath ++ accessPath).take 8, binding.locationId⟩

/-- An effect's place one hop up: parameters are bound, and only shared storage is visible. -/
def liftEffect (p : Problem) (hop : Hop) (place : Place MemoryLocationKind) :
    Option (Place MemoryLocationKind) :=
  match place.parameterIndex with
  | some index =>
      (p.binding? hop.caller hop.edge.site index).map fun binding =>
        boundPlace id binding place.accessPath
  | none =>
      if place.locationKind = .global ∨ place.locationKind = .field then some place else none

def composeEffect (p : Problem) : List Hop → Place MemoryLocationKind →
    Option (Place MemoryLocationKind)
  | [], place => some place
  | hop :: hops, place => (composeEffect p hops place).bind (p.liftEffect hop)

/-- An origin's place one hop up; an unbound parameter has an unknown place. -/
def liftOrigin (p : Problem) (hop : Hop) (place : Place (Option MemoryLocationKind)) :
    Place (Option MemoryLocationKind) :=
  match place.parameterIndex with
  | some index =>
      match p.binding? hop.caller hop.edge.site index with
      | some binding => boundPlace some binding place.accessPath
      | none => ⟨some .unknown, none, [], none⟩
  | none => place

def composeOrigin (p : Problem) (hops : List Hop) (place : Place (Option MemoryLocationKind)) :
    Place (Option MemoryLocationKind) :=
  hops.foldr p.liftOrigin place

/-! ## Witnesses -/

/-- `source` witnesses `effect` of `summary` along `hops`. -/
structure EffectWitness (p : Problem) (summary : FunctionSummary) (effect : SummaryEffect)
    (hops : List Hop) (last : FunctionSummary) (source : SummaryEffect) : Prop where
  nonempty : hops ≠ []
  path : CallPath p summary hops last
  isLocal : source ∈ p.localEffectsOf last.id
  kind : source.kind = effect.kind
  access : source.sourceAccessId = effect.sourceAccessId
  place : p.composeEffect hops (effectPlaceOf source) = some (effectPlaceOf effect)
  certain : effect.certainty = .certain →
    source.certainty = .certain ∧ ∀ hop ∈ hops, hop.Certain p

structure OriginWitness (p : Problem) (summary : FunctionSummary) (origin : SummaryReturnOrigin)
    (hops : List Hop) (last : FunctionSummary) (source : SummaryReturnOrigin) : Prop where
  nonempty : hops ≠ []
  path : CallPath p summary hops last
  marked : ∀ hop ∈ hops, hop.Marked p
  isLocal : source ∈ p.localOriginsOf last.id
  kind : origin.kind = if origin.locationKind.isSome then .location else .unknown
  place : p.composeOrigin hops (originPlaceOf source) = originPlaceOf origin
  certain : origin.certainty = .certain →
    source.certainty = .certain ∧ ∀ hop ∈ hops, hop.Certain p

/-- Every fact of `summary` is local or has a witness. -/
structure Derived (p : Problem) (summary : FunctionSummary) (facts : Facts) : Prop where
  effects : ∀ effect ∈ facts.effects, effect ∈ p.localEffectsOf summary.id ∨
    ∃ hops last source, EffectWitness p summary effect hops last source
  origins : ∀ origin ∈ facts.origins, origin ∈ p.localOriginsOf summary.id ∨
    ∃ hops last source, OriginWitness p summary origin hops last source

/-! ## One hop -/

variable [Fingerprint] {p : Problem} {caller callee last : FunctionSummary} {edge : CallEdge}

omit [Fingerprint] in
theorem certainty_eq_certain {target : CallTargetCertainty} {evidence : DataFlowCertainty} :
    certainty target evidence = .certain ↔ target = .certain ∧ evidence = .certain := by
  cases target <;> cases evidence <;> simp [certainty]

omit [Fingerprint] in
theorem evidenceCertainty_eq_certain {bodyAmbiguous : Bool} {evidence : DataFlowCertainty} :
    evidenceCertainty bodyAmbiguous evidence = .certain ↔
      bodyAmbiguous = false ∧ evidence = .certain := by
  cases bodyAmbiguous <;> simp [evidenceCertainty]

omit [Fingerprint] in
theorem hop_certain (hedge : edge ∈ p.callerEdges caller)
    (htarget : edge.target.certainty = .certain) (hbody : edge.bodyAmbiguous = false) :
    Hop.Certain p ⟨caller, edge⟩ := by
  obtain ⟨-, -, hcallee, hambiguous⟩ := p.mem_callerEdges.mp hedge
  refine ⟨htarget, ?_⟩
  rw [hbody] at hambiguous
  have hflag : (p.calleeBodies caller edge.target).2 =
      decide (1 < (p.calleeBodies caller edge.target).1.length) := rfl
  rw [hflag, eq_comm, decide_eq_false_iff_not, not_lt] at hambiguous
  have hlength := List.length_pos_of_mem hcallee
  obtain ⟨body, hbody'⟩ := List.length_eq_one_iff.mp (hambiguous.antisymm hlength)
  rw [hbody', List.mem_singleton] at hcallee
  refine Prod.ext (hbody'.trans (by rw [hcallee])) ?_
  rw [hflag, hbody']
  rfl

omit [Fingerprint] in
theorem liftEffect_eq (caller : FunctionSummary) (edge : CallEdge) (effect : SummaryEffect) :
    p.liftEffect ⟨caller, edge⟩ (effectPlaceOf effect) =
      p.effectPlace caller edge.site effect := by
  simp only [liftEffect, effectPlaceOf, effectPlace]
  cases hparameter : effect.parameterIndex with
  | none => rfl
  | some index =>
      simp only
      cases p.binding? caller edge.site index <;> rfl

omit [Fingerprint] in
theorem liftOrigin_eq (caller : FunctionSummary) (edge : CallEdge)
    (origin : SummaryReturnOrigin) :
    p.liftOrigin ⟨caller, edge⟩ (originPlaceOf origin) =
      p.originPlace caller edge.site origin := by
  simp only [liftOrigin, originPlaceOf, originPlace]
  cases hparameter : origin.parameterIndex with
  | none => rfl
  | some index =>
      simp only
      cases p.binding? caller edge.site index <;> rfl

/-- What a propagated effect keeps of the callee's effect. -/
theorem propagateEffect_some {source effect : SummaryEffect}
    (h : p.propagateEffect caller edge.site edge.target source edge.bodyAmbiguous = some effect) :
    p.liftEffect ⟨caller, edge⟩ (effectPlaceOf source) = some (effectPlaceOf effect) ∧
      source.kind = effect.kind ∧ source.sourceAccessId = effect.sourceAccessId ∧
      (effect.certainty = .certain → edge.target.certainty = .certain ∧
        edge.bodyAmbiguous = false ∧ source.certainty = .certain) := by
  rw [liftEffect_eq]
  obtain ⟨place, hplace, rfl⟩ := Option.map_eq_some_iff.mp h
  refine ⟨hplace, rfl, rfl, fun hcertain => ?_⟩
  rwa [effectRow, certainty_eq_certain, evidenceCertainty_eq_certain] at hcertain

theorem effectWitness_local {source effect : SummaryEffect}
    (hedge : edge ∈ p.callerEdges caller) (hcallee : p.summaryById edge.callee.id = some callee)
    (h : p.propagateEffect caller edge.site edge.target source edge.bodyAmbiguous = some effect)
    (hsource : source ∈ p.localEffectsOf callee.id) :
    EffectWitness p caller effect [⟨caller, edge⟩] callee source := by
  obtain ⟨hplace, hkind, haccess, hcertain⟩ := propagateEffect_some h
  refine ⟨by simp, .cons hedge hcallee (.nil callee), hsource, hkind, haccess, hplace, ?_⟩
  intro heffect
  obtain ⟨htarget, hbody, hlocal⟩ := hcertain heffect
  exact ⟨hlocal, by simpa using hop_certain hedge htarget hbody⟩

theorem effectWitness_cons {middle effect source : SummaryEffect} {hops : List Hop}
    (hedge : edge ∈ p.callerEdges caller) (hcallee : p.summaryById edge.callee.id = some callee)
    (h : p.propagateEffect caller edge.site edge.target middle edge.bodyAmbiguous = some effect)
    (hmiddle : EffectWitness p callee middle hops last source) :
    EffectWitness p caller effect (⟨caller, edge⟩ :: hops) last source := by
  obtain ⟨hplace, hkind, haccess, hcertain⟩ := propagateEffect_some h
  refine ⟨by simp, .cons hedge hcallee hmiddle.path, hmiddle.isLocal, hmiddle.kind.trans hkind,
    hmiddle.access.trans haccess, ?_, ?_⟩
  · rw [composeEffect, hmiddle.place, Option.bind_some, hplace]
  · intro heffect
    obtain ⟨htarget, hbody, hmiddle'⟩ := hcertain heffect
    obtain ⟨hsource, hhops⟩ := hmiddle.certain hmiddle'
    refine ⟨hsource, fun hop hhop => ?_⟩
    rcases List.mem_cons.mp hhop with rfl | hhop
    · exact hop_certain hedge htarget hbody
    · exact hhops hop hhop

theorem propagateOrigin_certain {source : SummaryReturnOrigin}
    (h : (p.propagateOrigin caller edge.site edge.target source edge.bodyAmbiguous).certainty =
      .certain) : edge.target.certainty = .certain ∧ edge.bodyAmbiguous = false ∧
        source.certainty = .certain := by
  simpa only [propagateOrigin, originRow, certainty_eq_certain, evidenceCertainty_eq_certain] using h

theorem originPlaceOf_propagateOrigin (source : SummaryReturnOrigin) :
    originPlaceOf (p.propagateOrigin caller edge.site edge.target source edge.bodyAmbiguous) =
      p.liftOrigin ⟨caller, edge⟩ (originPlaceOf source) := by
  rw [liftOrigin_eq]
  rfl

theorem originWitness_local {source : SummaryReturnOrigin}
    (hedge : edge ∈ p.callerEdges caller) (hcallee : p.summaryById edge.callee.id = some callee)
    (hmarked : Hop.Marked p ⟨caller, edge⟩) (hsource : source ∈ p.localOriginsOf callee.id) :
    OriginWitness p caller
      (p.propagateOrigin caller edge.site edge.target source edge.bodyAmbiguous)
      [⟨caller, edge⟩] callee source := by
  refine ⟨by simp, .cons hedge hcallee (.nil callee), by simpa using hmarked, hsource, rfl,
    (originPlaceOf_propagateOrigin source).symm, fun hcertain => ?_⟩
  obtain ⟨htarget, hbody, hlocal⟩ := propagateOrigin_certain hcertain
  exact ⟨hlocal, by simpa using hop_certain hedge htarget hbody⟩

theorem originWitness_cons {middle source : SummaryReturnOrigin} {hops : List Hop}
    (hedge : edge ∈ p.callerEdges caller) (hcallee : p.summaryById edge.callee.id = some callee)
    (hmarked : Hop.Marked p ⟨caller, edge⟩)
    (hmiddle : OriginWitness p callee middle hops last source) :
    OriginWitness p caller
      (p.propagateOrigin caller edge.site edge.target middle edge.bodyAmbiguous)
      (⟨caller, edge⟩ :: hops) last source := by
  refine ⟨by simp, .cons hedge hcallee hmiddle.path, ?_, hmiddle.isLocal, rfl, ?_, ?_⟩
  · intro hop hhop
    rcases List.mem_cons.mp hhop with rfl | hhop
    · exact hmarked
    · exact hmiddle.marked hop hhop
  · rw [originPlaceOf_propagateOrigin, ← hmiddle.place]
    rfl
  · intro hcertain
    obtain ⟨htarget, hbody, hmiddle'⟩ := propagateOrigin_certain hcertain
    obtain ⟨hsource, hhops⟩ := hmiddle.certain hmiddle'
    refine ⟨hsource, fun hop hhop => ?_⟩
    rcases List.mem_cons.mp hhop with rfl | hhop
    · exact hop_certain hedge htarget hbody
    · exact hhops hop hhop

/-! ## Every environment -/

/-- `Derived` for the summary that is solved under `id`. -/
def DerivedAt (p : Problem) (id : String) (facts : Facts) : Prop :=
  ∃ summary, p.summaryById id = some summary ∧ p.Derived summary facts

theorem derived_transfer {current : Environment} (h : Holds p.DerivedAt current)
    (caller : FunctionSummary) : p.Derived caller (p.transfer current caller) := by
  have hentry {id : String} {facts : Facts} (hfacts : current[id]? = some facts) :
      ∃ callee, p.summaryById id = some callee ∧ p.Derived callee facts :=
    h id facts hfacts
  constructor
  · intro effect heffect
    rcases List.mem_append.mp (p.mem_transfer_effects heffect) with hlocal | hedges
    · exact .inl hlocal
    obtain ⟨edge, hedge, hmem⟩ := List.mem_flatMap.mp hedges
    obtain ⟨middle, hmiddle, hpropagate⟩ := List.mem_filterMap.mp hmem
    obtain ⟨facts, hfacts, hmiddle⟩ := mem_effects.mp hmiddle
    obtain ⟨callee, hcallee, hderived⟩ := hentry hfacts
    rcases hderived.effects middle hmiddle with hsource | ⟨hops, last, source, hwitness⟩
    · exact .inr ⟨_, _, _, effectWitness_local hedge hcallee hpropagate hsource⟩
    · exact .inr ⟨_, _, _, effectWitness_cons hedge hcallee hpropagate hwitness⟩
  · intro origin horigin
    rcases p.mem_transfer_origins horigin with hlocal | ⟨edge, hedge, hmem, marker, hmarker, hmarks⟩
    · exact .inl hlocal
    have hmarked : Hop.Marked p ⟨caller, edge⟩ := ⟨marker, hmarker, by simpa [marks] using hmarks⟩
    obtain ⟨middle, hmiddle, rfl⟩ := List.mem_map.mp hmem
    obtain ⟨facts, hfacts, hmiddle⟩ := mem_origins.mp hmiddle
    obtain ⟨callee, hcallee, hderived⟩ := hentry hfacts
    rcases hderived.origins middle hmiddle with hsource | ⟨hops, last, source, hwitness⟩
    · exact .inr ⟨_, _, _, originWitness_local hedge hcallee hmarked hsource⟩
    · exact .inr ⟨_, _, _, originWitness_cons hedge hcallee hmarked hwitness⟩

theorem derived_invariant : p.Invariant p.DerivedAt where
  initial summary hsummary := by
    have hsome := (p.summaryById_isSome).mpr ((p.mem_summaryIds).mpr ⟨summary, hsummary, rfl⟩)
    obtain ⟨kept, hkept⟩ := Option.isSome_iff_exists.mp hsome
    have hid := p.summaryById_id hkept
    exact ⟨kept, hkept, fun _ h => .inl (hid ▸ h), fun _ h => .inl (hid ▸ h)⟩
  transfer _ hcurrent caller hcaller := ⟨caller, hcaller, derived_transfer hcurrent caller⟩
  reasons _ _ _ := fun ⟨summary, hsummary, hderived⟩ =>
    ⟨summary, hsummary, hderived.effects, hderived.origins⟩

theorem derived_of_mem_items {facts : Facts} (h : facts ∈ p.finalEnvironment.items) :
    ∃ summary, p.summaryById summary.id = some summary ∧ OwnFacts summary.id facts ∧
      p.Derived summary facts := by
  obtain ⟨id, hid⟩ := Table.mem_items.mp h
  obtain ⟨summary, hsummary, hderived⟩ := derived_invariant.holds_after p.components id facts hid
  obtain rfl := p.summaryById_id hsummary
  exact ⟨summary, hsummary, ownFacts_invariant.holds_after p.components _ facts hid, hderived⟩

/--
In the solution of a summary every effect and return origin is one of its local
facts or has a call path to a local fact with the composed location; what is
certain has a certain source and only certain, unambiguous hops.
-/
theorem certainty_never_overclaims (p : Problem) {σ : Type} (emit : Emitter σ) (owner : σ)
    (solution : InterproceduralSolution) (owner' : σ)
    (h : p.solveInterprocedural emit true owner = .ok (solution, owner')) :
    (∀ effect ∈ solution.effects, ∃ variant summary,
      (p.restrictTo variant).summaryById effect.summaryId = some summary ∧
      (effect ∈ (p.restrictTo variant).localEffectsOf summary.id ∨
        ∃ hops last source,
          EffectWitness (p.restrictTo variant) summary effect hops last source)) ∧
    ∀ origin ∈ solution.returnOrigins, ∃ variant summary,
      (p.restrictTo variant).summaryById origin.summaryId = some summary ∧
      (origin ∈ (p.restrictTo variant).localOriginsOf summary.id ∨
        ∃ hops last source,
          OriginWitness (p.restrictTo variant) summary origin hops last source) := by
  constructor
  · intro effect heffect
    obtain ⟨variant, _, _, _, hvariant, hmem⟩ := mem_solveInterprocedural h
      InterproceduralSolution.effects (fun _ _ => rfl) rfl
      (fun _ _ => (List.mem_insertionSort _).mp) heffect
    rw [(solved_of_ok hvariant).effects] at hmem
    obtain ⟨facts, hfacts, hmem⟩ := List.mem_flatMap.mp hmem
    obtain ⟨summary, hsummary, hown, hderived⟩ := derived_of_mem_items hfacts
    exact ⟨variant, summary, hown.1 effect hmem ▸ hsummary, hderived.effects effect hmem⟩
  · intro origin horigin
    obtain ⟨variant, _, _, _, hvariant, hmem⟩ := mem_solveInterprocedural h
      InterproceduralSolution.returnOrigins (fun _ _ => rfl) rfl
      (fun _ _ => (List.mem_insertionSort _).mp) horigin
    rw [(solved_of_ok hvariant).returnOrigins] at hmem
    obtain ⟨facts, hfacts, hmem⟩ := List.mem_flatMap.mp hmem
    obtain ⟨summary, hsummary, hown, hderived⟩ := derived_of_mem_items hfacts
    exact ⟨variant, summary, hown.2 origin hmem ▸ hsummary, hderived.origins origin hmem⟩

omit [Fingerprint] in
theorem certainty_never_overclaims_sample : ∃ solution,
    @solveInterprocedural plainFingerprint sampleProblem Unit ignore true () =
      .ok (solution, ()) ∧
    (∀ effect ∈ solution.effects, ∃ variant summary,
      (sampleProblem.restrictTo variant).summaryById effect.summaryId = some summary ∧
      (effect ∈ (sampleProblem.restrictTo variant).localEffectsOf summary.id ∨
        ∃ hops last source,
          EffectWitness (sampleProblem.restrictTo variant) summary effect hops last source)) ∧
    ∀ origin ∈ solution.returnOrigins, ∃ variant summary,
      (sampleProblem.restrictTo variant).summaryById origin.summaryId = some summary ∧
      (origin ∈ (sampleProblem.restrictTo variant).localOriginsOf summary.id ∨
        ∃ hops last source,
          OriginWitness (sampleProblem.restrictTo variant) summary origin hops last source) := by
  have hsummaries := sample_summaries
  cases hrun : @solveInterprocedural plainFingerprint sampleProblem Unit ignore true () with
  | error e =>
      rw [hrun] at hsummaries
      cases hsummaries
  | ok result =>
      exact ⟨result.1, rfl, @certainty_never_overclaims plainFingerprint sampleProblem Unit ignore
        () result.1 result.2 hrun⟩

end Problem

end CppContextEngine.Analysis
