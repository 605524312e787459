import CppContextEngine.Analysis.Convergence
import CppContextEngine.Analysis.Derivation

/-!
# What a complete summary has of its callees

A propagated effect is dropped when it has no parameter and no shared storage,
and its path is cut at eight names.  Neither leaves a reason, nor does an effect
that takes over the row of another one.  A complete summary has every effect of
what it calls just when none of the three can happen to the effects that the
inputs derive.
-/

namespace CppContextEngine.Analysis

open CppContextEngine.Foundation CppContextEngine.Models

namespace Problem

/-! ## Images -/

/-- The place of a callee effect in terms of the caller, with its whole path. -/
def wholePlace (p : Problem) (caller : FunctionSummary) (site : SummaryCallSiteProjection)
    (effect : SummaryEffect) : Option (Place MemoryLocationKind) :=
  match effect.parameterIndex with
  | some index =>
      (p.binding? caller site index).map fun binding =>
        { locationKind := binding.locationKind
          parameterIndex := binding.parameterIndex
          accessPath := binding.accessPath ++ effect.accessPath
          locationId := binding.locationId }
  | none => some (effectPlaceOf effect)

/-- `image` is the callee's `effect` as the caller sees it through `edge`. -/
def IsImage (edge : CallEdge) (effect : SummaryEffect) (place : Place MemoryLocationKind)
    (image : SummaryEffect) : Prop :=
  image.isLocal = false ∧ image.kind = effect.kind ∧
    image.sourceAccessId = effect.sourceAccessId ∧
    image.viaCallsiteId = some edge.site.id ∧
    image.targetSymbolId = some edge.target.targetSymbolId ∧ effectPlaceOf image = place

instance (edge : CallEdge) (effect : SummaryEffect) (place : Place MemoryLocationKind)
    (image : SummaryEffect) : Decidable (IsImage edge effect place image) :=
  inferInstanceAs (Decidable (_ ∧ _))

variable [Fingerprint]

/-- `effect` is neither dropped nor shortened on the way, and its image is there. -/
def Carried (p : Problem) (caller : FunctionSummary) (edge : CallEdge) (effect : SummaryEffect)
    (effects : List SummaryEffect) : Prop :=
  (p.propagateEffect caller edge.site edge.target effect edge.bodyAmbiguous).map effectPlaceOf =
      p.wholePlace caller edge.site effect ∧
    ∃ image ∈ effects, p.wholePlace caller edge.site effect = some (effectPlaceOf image) ∧
      IsImage edge effect (effectPlaceOf image) image

instance (p : Problem) (caller : FunctionSummary) (edge : CallEdge) (effect : SummaryEffect)
    (effects : List SummaryEffect) : Decidable (p.Carried caller edge effect effects) :=
  inferInstanceAs (Decidable (_ ∧ ∃ image ∈ effects, _))

/-- Every effect of what `caller` calls is carried into it. -/
def Closed (p : Problem) (effects : String → List SummaryEffect) (caller : FunctionSummary) :
    Prop :=
  ∀ edge ∈ p.callerEdges caller, ∀ effect ∈ effects edge.callee.id,
    p.Carried caller edge effect (effects caller.id)

instance (p : Problem) (effects : String → List SummaryEffect) (caller : FunctionSummary) :
    Decidable (p.Closed effects caller) :=
  inferInstanceAs (Decidable (∀ edge ∈ p.callerEdges caller, _))

omit [Fingerprint] in
/-- The call neither drops `effect` nor cuts its path. -/
def Kept (p : Problem) (caller : FunctionSummary) (edge : CallEdge) (effect : SummaryEffect) :
    Prop :=
  match effect.parameterIndex with
  | some index => ∃ binding, p.binding? caller edge.site index = some binding ∧
      (binding.accessPath ++ effect.accessPath).length ≤ 8
  | none => effect.locationKind = .global ∨ effect.locationKind = .field

/-- Two rows that differ in their certainty at most. -/
structure SameFact (effect other : SummaryEffect) : Prop where
  key : effectKey effect = effectKey other
  location : effect.locationId = other.locationId
  via : effect.viaCallsiteId = other.viaCallsiteId
  target : effect.targetSymbolId = other.targetSymbolId

/--
The calls of `caller` keep every effect that the inputs derive for their callees,
and no two effects that are derived for `caller` contend for one row.
-/
structure Lossless (p : Problem) (caller : FunctionSummary) : Prop where
  kept : ∀ edge ∈ p.callerEdges caller, ∀ effect, p.DerivableEffect edge.callee.id effect →
    p.Kept caller edge effect
  distinct : ∀ effect other, p.DerivableEffect caller.id effect →
    p.DerivableEffect caller.id other → effect.id = other.id → SameFact effect other

/-- The effects that are handed in are local ones, and their rows are their own. -/
structure LocalRows (p : Problem) : Prop where
  isLocal : ∀ effect ∈ p.localEffects, effect.isLocal = true
  distinct : ∀ effect ∈ p.localEffects, ∀ other ∈ p.localEffects, effect.id = other.id →
    effect = other
  fresh : ∀ effect ∈ p.localEffects, ∀ values, effect.id ≠ makeId "summary_effect" values

variable {p : Problem} {caller : FunctionSummary} {edge : CallEdge}
  {effect other row : SummaryEffect}

omit [Fingerprint] in
theorem SameFact.symm (h : SameFact effect other) : SameFact other effect :=
  ⟨h.key.symm, h.location.symm, h.via.symm, h.target.symm⟩

omit [Fingerprint] in
theorem SameFact.trans (h : SameFact effect other) (h' : SameFact other row) :
    SameFact effect row :=
  ⟨h.key.trans h'.key, h.location.trans h'.location, h.via.trans h'.via,
    h.target.trans h'.target⟩

/-! ## One call -/

omit [Fingerprint] in
/-- What is kept is seen at its whole place. -/
theorem kept_iff : p.Kept caller edge effect ↔
    ∃ place, p.effectPlace caller edge.site effect = some place ∧
      p.wholePlace caller edge.site effect = some place := by
  unfold Kept effectPlace wholePlace
  cases hparameter : effect.parameterIndex with
  | none =>
      simp only [effectPlaceOf, hparameter, Option.some.injEq, exists_eq_right']
      split <;> simp_all
  | some index =>
      simp only
      cases p.binding? caller edge.site index with
      | none => simp
      | some binding =>
          simp only [Option.some.injEq, exists_eq_left', Option.map_some, Place.mk.injEq,
            true_and, and_true]
          constructor
          · intro h
            rw [List.take_of_length_le h]
          · intro h
            rw [h]
            exact List.length_take_le 8 _

@[simp] theorem effectPlaceOf_row {place : Place MemoryLocationKind} {certainty : DataFlowCertainty} :
    effectPlaceOf (effectRow caller edge.site edge.target effect place certainty) = place := rfl

/-- A call carries `effect` on the way just when it keeps it. -/
theorem kept_of_carried {effects : List SummaryEffect}
    (h : p.Carried caller edge effect effects) : p.Kept caller edge effect := by
  obtain ⟨hway, image, -, hwhole, -⟩ := h
  rw [hwhole, Option.map_eq_some_iff] at hway
  obtain ⟨row, hrow, hplace⟩ := hway
  obtain ⟨place, heffect, rfl⟩ := Option.map_eq_some_iff.mp hrow
  rw [effectPlaceOf_row] at hplace
  exact kept_iff.mpr ⟨place, heffect, by rw [hwhole, hplace]⟩

omit [Fingerprint] in
theorem effectPlace_congr (h : SameFact effect other) :
    p.effectPlace caller edge.site effect = p.effectPlace caller edge.site other := by
  have hkey := h.key
  simp only [effectKey, EffectKey.mk.injEq] at hkey
  obtain ⟨-, -, hlocation, hparameter, hpath, -⟩ := hkey
  simp only [effectPlace, hlocation, hparameter, hpath, h.location]

omit [Fingerprint] in
theorem kept_congr (h : SameFact effect other) :
    p.Kept caller edge effect ↔ p.Kept caller edge other := by
  have hkey := h.key
  simp only [effectKey, EffectKey.mk.injEq] at hkey
  obtain ⟨-, -, hlocation, hparameter, hpath, -⟩ := hkey
  simp only [Kept, hlocation, hparameter, hpath]

/-- Rows that come through one call agree when what they come from does. -/
theorem propagateEffect_congr (h : SameFact effect other) {place : Place MemoryLocationKind}
    {certainty certainty' : DataFlowCertainty} :
    SameFact (effectRow caller edge.site edge.target effect place certainty)
      (effectRow caller edge.site edge.target other place certainty') := by
  have hkey := h.key
  simp only [effectKey, EffectKey.mk.injEq] at hkey
  obtain ⟨-, hkind, -, -, -, haccess⟩ := hkey
  constructor <;> simp [effectKey, effectRow, effectId, hkind, haccess]

/-- An image is the row that the call gives its effect. -/
theorem sameFact_of_isImage {edge' : CallEdge} {source : SummaryEffect}
    {place place' : Place MemoryLocationKind} {certainty certainty' : DataFlowCertainty}
    (h : IsImage edge effect place
      (effectRow caller edge'.site edge'.target source place' certainty')) :
    SameFact (effectRow caller edge.site edge.target effect place certainty)
      (effectRow caller edge'.site edge'.target source place' certainty') := by
  obtain ⟨-, hkind, haccess, hvia, htarget, rfl⟩ := h
  simp only [effectRow, Option.some.injEq] at hkind haccess hvia htarget
  constructor <;>
    simp [effectKey, effectPlaceOf, effectRow, effectId, hkind, haccess, hvia, htarget]

/-! ## One complete summary -/

section Solved

variable {before after : List (List String)} {component : List String}

theorem effects_of_mem_items {facts : Facts} (h : p.finalEnvironment[caller.id]? = some facts) :
    p.finalEnvironment.effects caller.id = facts.effects := by
  simp [Environment.effects, h]

/-- The effects of a complete summary are the table of what one transfer writes. -/
theorem effects_of_complete_summary (hcaller : p.summaryById caller.id = some caller)
    (hcomplete : p.Complete caller) : p.finalEnvironment.effects caller.id =
      (Table.put SummaryEffect.id ∅ (p.effectWrites p.finalEnvironment caller)).items := by
  obtain ⟨before, component, after, hsplit, hmember⟩ := exists_member hcaller
  obtain ⟨hsize, hcap⟩ := limits_of_complete hsplit hmember hcomplete
  have hquiet := quiet_of_complete hsplit hmember hcomplete
  rw [effects_of_mem_items (final_stable hsplit hmember hsize hcap), transfer]
  simp only
  rw [List.take_of_length_le hquiet.effects, transferDraft_effects]

/-- The table has the last effect that is written under each identifier. -/
theorem exists_row (hcaller : p.summaryById caller.id = some caller)
    (hcomplete : p.Complete caller)
    (hwrite : effect ∈ p.effectWrites p.finalEnvironment caller) :
    ∃ last ∈ p.finalEnvironment.effects caller.id, last.id = effect.id ∧
      last ∈ p.effectWrites p.finalEnvironment caller := by
  obtain ⟨last, hlast⟩ := Option.isSome_iff_exists.mp
    ((lastBy_isSome_iff SummaryEffect.id).mpr ⟨effect, hwrite, rfl⟩)
  refine ⟨last, ?_, lastBy_key _ hlast, mem_of_lastBy _ hlast⟩
  rw [effects_of_complete_summary hcaller hcomplete, Table.mem_items]
  refine ⟨effect.id, ?_⟩
  rw [Table.getElem?_put, hlast]
  rfl

theorem eq_of_row (hcaller : p.summaryById caller.id = some caller)
    (hcomplete : p.Complete caller) (heffect : effect ∈ p.finalEnvironment.effects caller.id)
    (hother : other ∈ p.finalEnvironment.effects caller.id) (hid : effect.id = other.id) :
    effect = other := by
  have hkeyed : (Table.put SummaryEffect.id ∅ (p.effectWrites p.finalEnvironment caller)).Keyed
      SummaryEffect.id := (Table.Keyed.empty _).put
  rw [effects_of_complete_summary hcaller hcomplete, hkeyed.mem_items] at heffect hother
  rw [hid, hother] at heffect
  exact (Option.some.inj heffect).symm

theorem derivable_of_final {id : String} (h : effect ∈ p.finalEnvironment.effects id) :
    p.DerivableEffect id effect := by
  obtain ⟨facts, hfacts, hmem⟩ := mem_effects.mp h
  exact (derivable_invariant.holds_after p.components id facts hfacts).1 effect hmem

theorem mem_effectWrites {current : Environment} (hedge : edge ∈ p.callerEdges caller)
    (heffect : effect ∈ current.effects edge.callee.id)
    (hrow : p.propagateEffect caller edge.site edge.target effect edge.bodyAmbiguous = some row) :
    row ∈ p.effectWrites current caller :=
  List.mem_append_right _ (List.mem_flatMap.mpr
    ⟨edge, hedge, List.mem_filterMap.mpr ⟨effect, heffect, hrow⟩⟩)

/-- A row is one of the caller's own, or a call has given it to one of the callee's effects. -/
theorem own_or_propagated {current : Environment} (h : row ∈ p.effectWrites current caller) :
    row ∈ p.localEffects ∨ ∃ edge ∈ p.callerEdges caller, ∃ source place certainty,
      row = effectRow caller edge.site edge.target source place certainty := by
  rcases List.mem_append.mp h with hlocal | hedges
  · exact .inl (mem_localEffects_of hlocal)
  · obtain ⟨edge, hedge, hmem⟩ := List.mem_flatMap.mp hedges
    obtain ⟨source, -, hrow⟩ := List.mem_filterMap.mp hmem
    obtain ⟨place, -, rfl⟩ := Option.map_eq_some_iff.mp hrow
    exact .inr ⟨edge, hedge, source, place, _, rfl⟩

variable (hlocal : p.LocalRows) (hcaller : p.summaryById caller.id = some caller)
  (hcomplete : p.Complete caller)

include hlocal hcaller hcomplete

/-- Where nothing is lost, every effect of a callee is carried. -/
theorem closed_of_lossless (h : p.Lossless caller) :
    p.Closed p.finalEnvironment.effects caller := by
  intro edge hedge effect heffect
  have hderivable := derivable_of_final heffect
  obtain ⟨place, hplace, hwhole⟩ := kept_iff.mp (h.kept edge hedge effect hderivable)
  have hrow : p.propagateEffect caller edge.site edge.target effect edge.bodyAmbiguous = some
      (effectRow caller edge.site edge.target effect place
        (certainty edge.target.certainty
          (evidenceCertainty edge.bodyAmbiguous effect.certainty))) := by
    simp [propagateEffect, hplace]
  obtain ⟨last, hlast, hid, hwritten⟩ :=
    exists_row hcaller hcomplete (mem_effectWrites hedge heffect hrow)
  have hsame := h.distinct _ last (.call hcaller hedge hderivable hrow)
    (derivable_of_final hlast) hid.symm
  refine ⟨?_, last, hlast, ?_, ?_⟩
  · rw [hrow, hwhole]
    rfl
  · rw [hwhole]
    have hkey := hsame.key
    simp only [effectKey, effectRow, EffectKey.mk.injEq] at hkey
    simp [effectPlaceOf, ← hkey, ← hsame.location, effectRow]
  · have hpropagated : last.isLocal = false := by
      rcases own_or_propagated hwritten with hown | ⟨_, _, _, _, _, rfl⟩
      · exact absurd hid (hlocal.fresh last hown _)
      · rfl
    have hkey := hsame.key
    simp only [effectKey, effectRow, EffectKey.mk.injEq] at hkey
    exact ⟨hpropagated, hkey.2.1.symm, hkey.2.2.2.2.2.symm, hsame.via.symm, hsame.target.symm, rfl⟩

/-- A local effect keeps its row. -/
theorem own_mem_final (heffect : effect ∈ p.localEffectsOf caller.id) :
    effect ∈ p.finalEnvironment.effects caller.id := by
  obtain ⟨last, hlast, hid, hwritten⟩ := exists_row hcaller hcomplete
    (List.mem_append_left _ heffect : effect ∈ p.effectWrites p.finalEnvironment caller)
  have hmem := mem_localEffects_of heffect
  rcases own_or_propagated hwritten with hown | ⟨_, _, _, _, _, rfl⟩
  · rwa [hlocal.distinct last hown effect hmem hid] at hlast
  · exact absurd hid.symm (hlocal.fresh effect hmem _)

/-- An image in the solved effects is the row of the effect it is the image of. -/
theorem sameFact_of_image {image : SummaryEffect} {place : Place MemoryLocationKind}
    {certainty : DataFlowCertainty} (himage : image ∈ p.finalEnvironment.effects caller.id)
    (h : IsImage edge effect place image) :
    SameFact (effectRow caller edge.site edge.target effect place certainty) image := by
  rw [effects_of_complete_summary hcaller hcomplete] at himage
  have hwritten := (Table.mem_items_put himage).resolve_left (by simp)
  rcases own_or_propagated hwritten with hown | ⟨_, _, _, _, _, rfl⟩
  · have hisLocal := hlocal.isLocal image hown
    rw [h.1] at hisLocal
    cases hisLocal
  · exact sameFact_of_isImage h

end Solved

/-! ## Everything that a complete summary reaches -/

/-- Everything that `summary` reaches carries the effects of its callees. -/
def ClosedBelow (p : Problem) (effects : String → List SummaryEffect) (summary : FunctionSummary) :
    Prop :=
  ∀ target, Relation.ReflTransGen p.CallsBody summary target → p.Closed effects target

def LosslessBelow (p : Problem) (summary : FunctionSummary) : Prop :=
  ∀ target, Relation.ReflTransGen p.CallsBody summary target → p.Lossless target

variable {summary : FunctionSummary}

theorem complete_of_reaches (hsummary : p.summaryById summary.id = some summary)
    (hcomplete : p.Complete summary) {target : FunctionSummary}
    (hreach : Relation.ReflTransGen p.CallsBody summary target) :
    p.summaryById target.id = some target ∧ p.Complete target := by
  induction hreach with
  | refl => exact ⟨hsummary, hcomplete⟩
  | tail _ hcalls ih => exact ⟨hcalls.summaryById, complete_of_calls ih.1 ih.2 hcalls⟩

/-- Where nothing is lost on the way, the solved effects are the derivable ones. -/
theorem exists_solved (hlocal : p.LocalRows) (hsummary : p.summaryById summary.id = some summary)
    (hcomplete : p.Complete summary)
    (hclosed : p.ClosedBelow p.finalEnvironment.effects summary) {id : String}
    (h : p.DerivableEffect id effect) : ∀ target, target.id = id →
      Relation.ReflTransGen p.CallsBody summary target →
      ∃ solved ∈ p.finalEnvironment.effects id, SameFact effect solved := by
  induction h with
  | own heffect =>
      rintro target rfl hreach
      obtain ⟨htarget, hdone⟩ := complete_of_reaches hsummary hcomplete hreach
      exact ⟨_, own_mem_final hlocal htarget hdone heffect, ⟨rfl, rfl, rfl, rfl⟩⟩
  | @call caller edge source row hcaller hedge _ hrow ih =>
      rintro target hid hreach
      obtain ⟨htarget, hdone⟩ := complete_of_reaches hsummary hcomplete hreach
      obtain rfl : target = caller := by
        rw [hid, hcaller] at htarget
        exact (Option.some.inj htarget).symm
      have hcallee : edge.callee.id ∈ p.summaryIds :=
        (p.mem_summaryIds).mpr ⟨_, p.callee_mem_summaries hedge, rfl⟩
      obtain ⟨callee, hcallee⟩ := Option.isSome_iff_exists.mp ((p.summaryById_isSome).mpr hcallee)
      obtain ⟨found, hfound, hsame⟩ := ih callee (p.summaryById_id hcallee)
        (hreach.tail ⟨edge, hedge, hcallee⟩)
      -- the solved effect of the callee has an image, which is the derived row
      obtain ⟨hway, image, himage, hwhole, hisImage⟩ := hclosed _ hreach edge hedge found hfound
      obtain ⟨place, hplace, rfl⟩ := Option.map_eq_some_iff.mp hrow
      have hsolved : p.effectPlace target edge.site found = some place := by
        rw [← effectPlace_congr hsame, hplace]
      have hwhole' : place = effectPlaceOf image := by
        rw [hwhole, propagateEffect, hsolved] at hway
        simpa using hway
      subst hwhole'
      have hrowImage : SameFact (effectRow target edge.site edge.target found
          (effectPlaceOf image) found.certainty) image :=
        sameFact_of_image hlocal htarget hdone himage hisImage
      exact ⟨image, himage, (propagateEffect_congr hsame).trans hrowImage⟩

theorem lossless_of_closed (hlocal : p.LocalRows)
    (hsummary : p.summaryById summary.id = some summary) (hcomplete : p.Complete summary)
    (hclosed : p.ClosedBelow p.finalEnvironment.effects summary) : p.LosslessBelow summary := by
  intro target hreach
  have hsolved {id : String} {effect : SummaryEffect} (h : p.DerivableEffect id effect) :=
    exists_solved hlocal hsummary hcomplete hclosed h
  constructor
  · intro edge hedge effect heffect
    have hcallee : edge.callee.id ∈ p.summaryIds :=
      (p.mem_summaryIds).mpr ⟨_, p.callee_mem_summaries hedge, rfl⟩
    obtain ⟨callee, hcallee⟩ := Option.isSome_iff_exists.mp ((p.summaryById_isSome).mpr hcallee)
    obtain ⟨found, hfound, hsame⟩ := hsolved heffect callee (p.summaryById_id hcallee)
      (hreach.tail ⟨edge, hedge, hcallee⟩)
    exact (kept_congr hsame).mpr (kept_of_carried (hclosed target hreach edge hedge found hfound))
  · intro effect other heffect hother hid
    obtain ⟨htarget, hdone⟩ := complete_of_reaches hsummary hcomplete hreach
    obtain ⟨found, hfound, hsame⟩ := hsolved heffect target rfl hreach
    obtain ⟨found', hfound', hsame'⟩ := hsolved hother target rfl hreach
    have hkey := congrArg EffectKey.id hsame.key
    have hkey' := congrArg EffectKey.id hsame'.key
    obtain rfl := eq_of_row htarget hdone hfound hfound'
      (hkey.symm.trans (hid.trans hkey'))
    exact hsame.trans hsame'.symm

theorem closedBelow_iff (hlocal : p.LocalRows)
    (hsummary : p.summaryById summary.id = some summary) (hcomplete : p.Complete summary) :
    p.ClosedBelow p.finalEnvironment.effects summary ↔ p.LosslessBelow summary := by
  constructor
  · exact lossless_of_closed hlocal hsummary hcomplete
  · intro h target hreach
    obtain ⟨htarget, hdone⟩ := complete_of_reaches hsummary hcomplete hreach
    exact closed_of_lossless hlocal htarget hdone (h target hreach)

/-! ## Solutions -/

/-- The effects that a solution has of the summary `id` of one build variant. -/
def effectsOf (solution : InterproceduralSolution) (variant id : String) : List SummaryEffect :=
  solution.effects.filter fun effect => effect.summaryId = id ∧ effect.buildVariant = variant

theorem LocalRows.restrictTo (h : p.LocalRows) (variant : String) :
    (p.restrictTo variant).LocalRows := by
  have hmem : ∀ effect ∈ (p.restrictTo variant).localEffects, effect ∈ p.localEffects :=
    fun effect heffect => List.mem_of_mem_filter heffect
  constructor
  · exact fun effect heffect => h.isLocal effect (hmem effect heffect)
  · exact fun effect heffect other hother =>
      h.distinct effect (hmem effect heffect) other (hmem other hother)
  · exact fun effect heffect => h.fresh effect (hmem effect heffect)

theorem buildVariant_of_derivable {variant id : String}
    (h : (p.restrictTo variant).DerivableEffect id effect) : effect.buildVariant = variant := by
  cases h with
  | own h => simpa using List.of_mem_filter (mem_localEffects_of h)
  | call _ hedge _ hrow =>
      obtain ⟨place, -, rfl⟩ := Option.map_eq_some_iff.mp hrow
      have hsite := List.mem_of_mem_filter (((p.restrictTo variant).mem_callerEdges.mp hedge).1)
      simpa [effectRow] using List.of_mem_filter hsite

section Variants

variable {σ : Type} {emit : Emitter σ} {retain : Bool}

/-- A solve of several variants keeps what it has solved. -/
theorem foldlM_solveNext_keeps {β : Type} (part : InterproceduralSolution → List β)
    (hpart : ∀ solved solution, part (solved.append solution) = part solved ++ part solution)
    (variants : List String) : ∀ {state state' : InterproceduralSolution × σ},
      variants.foldlM (p.solveNext emit retain) state = .ok state' →
      (∀ item ∈ part state.1, item ∈ part state'.1) ∧
        ∀ variant ∈ variants, ∃ solution owner owner',
          (p.restrictTo variant).solveVariant emit retain owner = .ok (solution, owner') ∧
            ∀ item ∈ part solution, item ∈ part state'.1 := by
  induction variants with
  | nil =>
      intro state state' h
      cases h
      simp
  | cons variant variants ih =>
      intro state state' h
      rw [List.foldlM_cons] at h
      simp only [solveNext] at h
      cases hvariant : (p.restrictTo variant).solveVariant emit retain state.2 with
      | error e =>
          rw [hvariant] at h
          cases h
      | ok result =>
          rw [hvariant] at h
          obtain ⟨hkeeps, hlater⟩ := ih h
          simp only [hpart, List.mem_append] at hkeeps
          refine ⟨fun item hitem => hkeeps item (.inl hitem), fun other hother => ?_⟩
          rcases List.mem_cons.mp hother with rfl | hother
          · exact ⟨result.1, state.2, result.2, hvariant,
              fun item hitem => hkeeps item (.inr hitem)⟩
          · exact hlater other hother

omit [Fingerprint] in
theorem mem_variants (hsummary : summary ∈ p.summaries) : summary.buildVariant ∈ p.variants := by
  simp only [variants, Std.ExtTreeSet.mem_toList, Std.ExtTreeSet.mem_ofList]
  exact List.contains_iff_mem.mpr (List.mem_map_of_mem hsummary)

/-- A retained solution has the final facts of each build variant. -/
theorem mem_effectsOf {owner owner' : σ} {solution : InterproceduralSolution}
    (h : p.solveInterprocedural emit true owner = .ok (solution, owner')) {variant : String}
    (hvariant : variant ∈ p.variants) {id : String} :
    effect ∈ effectsOf solution variant id ↔
      effect ∈ (p.restrictTo variant).finalEnvironment.effects id := by
  have hown (variant : String) : Holds OwnFacts (p.restrictTo variant).finalEnvironment :=
    ownFacts_invariant.holds_after _
  simp only [effectsOf, List.mem_filter, decide_eq_true_eq]
  constructor
  · rintro ⟨hmem, rfl, hbuild⟩
    obtain ⟨variant', _, _, _, hsolved, hmem⟩ := mem_solveInterprocedural h
      InterproceduralSolution.effects (fun _ _ => rfl) rfl
      (fun _ _ => (List.mem_insertionSort _).mp) hmem
    rw [(solved_of_ok hsolved).effects] at hmem
    obtain ⟨facts, hfacts, hmem⟩ := List.mem_flatMap.mp hmem
    obtain ⟨id, hid⟩ := Table.mem_items.mp hfacts
    have hfinal : effect ∈ (p.restrictTo variant').finalEnvironment.effects id :=
      mem_effects.mpr ⟨facts, hid, hmem⟩
    rw [← buildVariant_of_derivable (derivable_of_final hfinal), hbuild,
      ← (hown variant' id facts hid).1 effect hmem] at hfinal
    exact hfinal
  · intro hmem
    obtain ⟨facts, hfacts, hmem'⟩ := mem_effects.mp hmem
    refine ⟨?_, (hown variant id facts hfacts).1 effect hmem',
      buildVariant_of_derivable (derivable_of_final hmem)⟩
    simp only [solveInterprocedural] at h
    cases hfold : p.variants.foldlM (p.solveNext emit true) (⟨[], [], [], []⟩, owner) with
    | error e =>
        rw [hfold] at h
        cases h
    | ok state =>
        rw [hfold] at h
        cases h
        obtain ⟨part, _, _, hpart, hkept⟩ := (foldlM_solveNext_keeps
          InterproceduralSolution.effects (fun _ _ => rfl) p.variants hfold).2 variant hvariant
        refine (List.mem_insertionSort _).mpr (hkept effect ?_)
        rw [(solved_of_ok hpart).effects]
        exact List.mem_flatMap.mpr ⟨facts, Table.mem_items.mpr ⟨id, hfacts⟩, hmem'⟩

end Variants

theorem closed_congr {effects effects' : String → List SummaryEffect}
    (h : ∀ id effect, effect ∈ effects id ↔ effect ∈ effects' id) :
    p.Closed effects caller ↔ p.Closed effects' caller := by
  simp only [Closed, Carried, h]

omit [Fingerprint]

/-- A certain write through the global pointer `place`. -/
def rawStore (id summary place : String)
    (identified : isBlank id = false ∧ isBlank summary = false ∧ isBlank "assignment" = false := by
      decide) : SummaryEffect :=
  { rawWrite id summary place identified with locationKind := .dereference }

def storeProblem : Problem :=
  { sampleProblem with localEffects := [rawStore "store" "g" "cursor"] }

/-- Whether `solved` is complete without any effect, although its callees have one. -/
def lacksEffects (p : Problem) (solution : InterproceduralSolution) (solved : FunctionSummary) :
    Bool :=
  (effectsOf solution solved.buildVariant solved.id).isEmpty &&
    ((p.restrictTo solved.buildVariant).summaryById solved.id).any fun summary =>
      !decide (@Closed plainFingerprint (p.restrictTo solved.buildVariant)
        (effectsOf solution solved.buildVariant) summary)

theorem storeProblem_lacks :
    (@solveInterprocedural plainFingerprint storeProblem Unit ignore true ()).toOption.map
      (fun result => result.1.summaries.map fun solved =>
        (solved.id, solved.complete, storeProblem.lacksEffects result.1 solved)) =
    some [("f", true, true), ("g", true, false)] := by
  decide

/-- The solve of the sample and the summary of `f` in it. -/
theorem storeProblem_solved : ∃ solution solved,
    @solveInterprocedural plainFingerprint storeProblem Unit ignore true () =
      .ok (solution, ()) ∧ solved ∈ solution.summaries ∧ solved.id = "f" ∧
      solved.complete = true ∧ storeProblem.lacksEffects solution solved = true := by
  have hlacks := storeProblem_lacks
  cases hrun : @solveInterprocedural plainFingerprint storeProblem Unit ignore true () with
  | error e =>
      rw [hrun] at hlacks
      cases hlacks
  | ok result =>
      rw [hrun] at hlacks
      obtain ⟨solution, owner⟩ := result
      simp only [Except.toOption, Option.map_some, Option.some.injEq] at hlacks
      cases hsummaries : solution.summaries with
      | nil => simp [hsummaries] at hlacks
      | cons solved rest =>
          simp only [hsummaries, List.map_cons, List.cons.injEq, Prod.mk.injEq] at hlacks
          obtain ⟨⟨hid, hcomplete, hmissing⟩, -⟩ := hlacks
          exact ⟨solution, solved, rfl, by simp [hsummaries], hid, hcomplete, hmissing⟩

theorem storeProblem_localRows : @LocalRows plainFingerprint storeProblem := by
  refine @LocalRows.mk plainFingerprint _ (by decide) (by decide) fun effect heffect values h => ?_
  obtain rfl := List.mem_singleton.mp heffect
  have hchars := congrArg String.toList h
  simp [@makeId.eq_def plainFingerprint, rawStore, rawWrite] at hchars

end Problem

end CppContextEngine.Analysis
