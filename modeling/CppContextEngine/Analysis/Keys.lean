import CppContextEngine.Analysis.Passes
import CppContextEngine.Foundation.Chain

/-!
# Fact keys

A key is what identifies a fact and decides what becomes of it in a caller: all
of an effect but its certainty and location, all of an origin but its
certainty.  When identifiers are injective, overwriting never changes a key, so
the keys of a round are a monotone function of the keys before it.
-/

namespace CppContextEngine.Analysis

open CppContextEngine.Foundation CppContextEngine.Models

structure EffectKey where
  id : String
  kind : SummaryEffectKind
  locationKind : MemoryLocationKind
  parameterIndex : Option Nat
  accessPath : List String
  sourceAccessId : Option String

structure OriginKey where
  id : String
  locationKind : Option MemoryLocationKind
  parameterIndex : Option Nat
  accessPath : List String
  locationId : Option String

def effectKey (effect : SummaryEffect) : EffectKey :=
  ⟨effect.id, effect.kind, effect.locationKind, effect.parameterIndex, effect.accessPath,
    effect.sourceAccessId⟩

def originKey (origin : SummaryReturnOrigin) : OriginKey :=
  ⟨origin.id, origin.locationKind, origin.parameterIndex, origin.accessPath, origin.locationId⟩

variable [Fingerprint]

namespace Problem

/-- Fact identifiers are assigned injectively, to local and to propagated facts. -/
structure DistinctIds (p : Problem) : Prop where
  digest : Function.Injective Fingerprint.digest
  effects : ∀ id, ((p.localEffectsOf id).map SummaryEffect.id).Nodup
  origins : ∀ id, ((p.localOriginsOf id).map SummaryReturnOrigin.id).Nodup
  effectFresh : ∀ effect ∈ p.localEffects, ∀ values, effect.id ≠ makeId "summary_effect" values
  originFresh : ∀ origin ∈ p.localOrigins, ∀ values, origin.id ≠ makeId "summary_return" values

theorem makeId_injective (h : Function.Injective Fingerprint.digest) (idPrefix : String) :
    Function.Injective (makeId idPrefix) := by
  intro values values' heq
  simp only [makeId] at heq
  exact h ((String.append_right_inj _).mp heq)

/-! ## Keys in a table -/

omit [Fingerprint] in
/-- Overwriting keeps the keys when equal identifiers have equal keys. -/
theorem exists_mem_items_put {β κ : Type} {id : β → String} {key : β → κ} {writes : List β}
    (hkey : ∀ a ∈ writes, ∀ b ∈ writes, id a = id b → key a = key b) (k : κ) :
    (∃ v ∈ (Table.put id ∅ writes).items, key v = k) ↔ ∃ v ∈ writes, key v = k := by
  constructor
  · rintro ⟨v, hv, hk⟩
    exact ⟨v, (Table.mem_items_put hv).resolve_left (by simp), hk⟩
  · rintro ⟨v, hv, hk⟩
    obtain ⟨w, hw⟩ := Option.isSome_iff_exists.mp
      ((lastBy_isSome_iff id).mpr ⟨v, hv, rfl⟩ : (lastBy id (id v) writes).isSome)
    refine ⟨w, Table.mem_items.mpr ⟨id v, ?_⟩, ?_⟩
    · rw [Table.getElem?_put, hw]
      rfl
    · rw [← hk]
      exact hkey w (mem_of_lastBy id hw) v hv (lastBy_key id hw)

/-! ## Effects -/

variable {p : Problem} {caller : FunctionSummary} {current : Environment}

theorem propagateEffect_key (h : Function.Injective Fingerprint.digest)
    {edge edge' : CallEdge} {source source' effect effect' : SummaryEffect}
    (heffect : p.propagateEffect caller edge.site edge.target source edge.bodyAmbiguous =
      some effect)
    (heffect' : p.propagateEffect caller edge'.site edge'.target source' edge'.bodyAmbiguous =
      some effect')
    (hid : effect.id = effect'.id) : effectKey effect = effectKey effect' := by
  obtain ⟨place, -, rfl⟩ := Option.map_eq_some_iff.mp heffect
  obtain ⟨place', -, rfl⟩ := Option.map_eq_some_iff.mp heffect'
  have hvalues := makeId_injective h _ hid
  simp only [List.cons.injEq, IdValue.text.injEq, IdValue.index.injEq, IdValue.texts.injEq,
    IdValue.optional.injEq, StrEnum.value_injective.eq_iff] at hvalues
  obtain ⟨-, hkind, hlocation, hparameter, hpath, hsite, htarget, haccess, -⟩ := hvalues
  simp only [effectKey, effectRow, effectId, EffectKey.mk.injEq]
  exact ⟨hid, hkind, hlocation, hparameter, hpath, haccess⟩

omit [Fingerprint] in
theorem mem_localEffects_of {id : String} {effect : SummaryEffect}
    (h : effect ∈ p.localEffectsOf id) : effect ∈ p.localEffects := by
  rw [localEffectsOf, List.mem_insertionSort] at h
  exact List.mem_of_mem_filter h

theorem effectWrites_key (hids : p.DistinctIds) (a : SummaryEffect)
    (ha : a ∈ p.effectWrites current caller) (b : SummaryEffect)
    (hb : b ∈ p.effectWrites current caller) (hid : a.id = b.id) : effectKey a = effectKey b := by
  have hpropagated {effect : SummaryEffect}
      (h : effect ∈ (p.callerEdges caller).flatMap (p.edgeEffects current caller)) :
      ∃ (edge : CallEdge) (source : SummaryEffect), p.propagateEffect caller edge.site edge.target
        source edge.bodyAmbiguous = some effect := by
    obtain ⟨edge, -, h⟩ := List.mem_flatMap.mp h
    obtain ⟨source, -, h⟩ := List.mem_filterMap.mp h
    exact ⟨edge, source, h⟩
  have hfresh {effect propagated : SummaryEffect} (hlocal : effect ∈ p.localEffectsOf caller.id)
      (h : propagated ∈ (p.callerEdges caller).flatMap (p.edgeEffects current caller)) :
      effect.id ≠ propagated.id := by
    obtain ⟨edge, source, h⟩ := hpropagated h
    obtain ⟨place, -, rfl⟩ := Option.map_eq_some_iff.mp h
    exact hids.effectFresh effect (mem_localEffects_of hlocal) _
  rcases List.mem_append.mp ha with ha | ha <;> rcases List.mem_append.mp hb with hb | hb
  · rw [List.inj_on_of_nodup_map (hids.effects caller.id) ha hb hid]
  · exact absurd hid (hfresh ha hb)
  · exact absurd hid.symm (hfresh hb ha)
  · obtain ⟨edge, source, ha⟩ := hpropagated ha
    obtain ⟨edge', source', hb⟩ := hpropagated hb
    exact propagateEffect_key hids.digest ha hb hid

def effectKeyId (caller : FunctionSummary) (edge : CallEdge) (kind : SummaryEffectKind)
    (locationKind : MemoryLocationKind) (parameterIndex : Option Nat) (accessPath : List String)
    (sourceAccessId : Option String) : String :=
  makeId "summary_effect"
    [.text caller.id, .text (StrEnum.value kind), .text (StrEnum.value locationKind),
      .index parameterIndex, .texts accessPath, .text edge.site.id,
      .text edge.target.targetSymbolId, .optional sourceAccessId]

def effectKeyRow (caller : FunctionSummary) (edge : CallEdge) (source : EffectKey)
    (locationKind : MemoryLocationKind) (parameterIndex : Option Nat) (accessPath : List String) :
    EffectKey where
  id := effectKeyId caller edge source.kind locationKind parameterIndex accessPath
    source.sourceAccessId
  kind := source.kind
  locationKind := locationKind
  parameterIndex := parameterIndex
  accessPath := accessPath
  sourceAccessId := source.sourceAccessId

/-- The key of a callee's effect, one hop up. -/
def liftEffectKey (p : Problem) (caller : FunctionSummary) (edge : CallEdge) (key : EffectKey) :
    Option EffectKey :=
  match key.parameterIndex with
  | some index => (p.binding? caller edge.site index).map fun binding =>
      effectKeyRow caller edge key binding.locationKind binding.parameterIndex
        ((binding.accessPath ++ key.accessPath).take 8)
  | none =>
      if key.locationKind = .global ∨ key.locationKind = .field then
        some (effectKeyRow caller edge key key.locationKind none key.accessPath)
      else none

theorem liftEffectKey_eq (edge : CallEdge) (effect : SummaryEffect) :
    p.liftEffectKey caller edge (effectKey effect) =
      (p.propagateEffect caller edge.site edge.target effect edge.bodyAmbiguous).map effectKey := by
  simp only [propagateEffect, effectPlace, liftEffectKey, effectKey]
  cases effect.parameterIndex with
  | none =>
      by_cases hshared : effect.locationKind = .global ∨ effect.locationKind = .field
      · simp only [hshared, ↓reduceIte]
        rfl
      · simp only [hshared, ↓reduceIte]
        rfl
  | some index =>
      simp only
      cases p.binding? caller edge.site index <;> rfl

def HasEffect (current : Environment) (id : String) (key : EffectKey) : Prop :=
  ∃ effect ∈ current.effects id, effectKey effect = key

theorem transferDraft_effect_keys (hids : p.DistinctIds) (key : EffectKey) :
    (∃ effect ∈ (p.transferDraft current caller).effects.items, effectKey effect = key) ↔
      (∃ effect ∈ p.localEffectsOf caller.id, effectKey effect = key) ∨
        ∃ edge ∈ p.callerEdges caller, ∃ source, HasEffect current edge.callee.id source ∧
          p.liftEffectKey caller edge source = some key := by
  rw [transferDraft_effects, exists_mem_items_put (effectWrites_key hids)]
  constructor
  · rintro ⟨effect, heffect, rfl⟩
    rcases List.mem_append.mp heffect with hlocal | hedges
    · exact .inl ⟨effect, hlocal, rfl⟩
    · obtain ⟨edge, hedge, hmem⟩ := List.mem_flatMap.mp hedges
      obtain ⟨source, hsource, hpropagate⟩ := List.mem_filterMap.mp hmem
      refine .inr ⟨edge, hedge, effectKey source, ⟨source, hsource, rfl⟩, ?_⟩
      rw [liftEffectKey_eq, hpropagate]
      rfl
  · rintro (⟨effect, hlocal, rfl⟩ | ⟨edge, hedge, _, ⟨source, hsource, rfl⟩, hlift⟩)
    · exact ⟨effect, List.mem_append_left _ hlocal, rfl⟩
    · rw [liftEffectKey_eq] at hlift
      obtain ⟨effect, hpropagate, rfl⟩ := Option.map_eq_some_iff.mp hlift
      exact ⟨effect, List.mem_append_right _ (List.mem_flatMap.mpr
        ⟨edge, hedge, List.mem_filterMap.mpr ⟨source, hsource, hpropagate⟩⟩), rfl⟩

/-! ## Origins -/

/-- A local origin of `caller` asks for what the callees at `edge.site` return. -/
def Marked (p : Problem) (caller : FunctionSummary) (edge : CallEdge) : Prop :=
  ∃ marker ∈ p.localOriginsOf caller.id, marks edge.site marker = true

instance (edge : CallEdge) : Decidable (Marked p caller edge) :=
  inferInstanceAs (Decidable (∃ marker ∈ p.localOriginsOf caller.id, _))

omit [Fingerprint] in
theorem mem_localOrigins_of {id : String} {origin : SummaryReturnOrigin}
    (h : origin ∈ p.localOriginsOf id) : origin ∈ p.localOrigins := by
  rw [localOriginsOf, List.mem_insertionSort] at h
  exact List.mem_of_mem_filter h

/-- Everything a transfer writes into its origins, in order. -/
def originWrites (p : Problem) (current : Environment) (caller : FunctionSummary) :
    List SummaryReturnOrigin :=
  p.localOriginsOf caller.id ++ ((p.callerEdges caller).filter fun edge =>
    p.Marked caller edge).flatMap (p.edgeOrigins current caller)

theorem propagateOrigin_id (edge : CallEdge) (source : SummaryReturnOrigin) :
    ∃ values, (p.propagateOrigin caller edge.site edge.target source edge.bodyAmbiguous).id =
      makeId "summary_return" values :=
  ⟨_, rfl⟩

/-- No local origin has an identifier that propagation makes. -/
def OriginsFresh (p : Problem) : Prop :=
  ∀ origin ∈ p.localOrigins, ∀ values, origin.id ≠ makeId "summary_return" values

/-- A local origin is never overwritten. -/
theorem originStep_keeps (hfresh : p.OriginsFresh) {table : Table SummaryReturnOrigin}
    {marker : SummaryReturnOrigin} (hlocal : marker ∈ p.localOriginsOf caller.id)
    (h : table[marker.id]? = some marker) (edge : CallEdge) :
    (p.originStep current caller table edge)[marker.id]? = some marker := by
  unfold originStep
  split
  · have hnone : lastBy SummaryReturnOrigin.id marker.id (p.edgeOrigins current caller edge) =
        none := by
      rw [← Option.not_isSome_iff_eq_none, lastBy_isSome_iff]
      rintro ⟨origin, horigin, hid⟩
      obtain ⟨source, -, rfl⟩ := List.mem_map.mp horigin
      exact hfresh marker (mem_localOrigins_of hlocal) _ hid.symm
    rw [Table.getElem?_put, hnone, Option.none_or, h]
  · exact h

/-- What the origins of a transfer are, in terms of the local markers alone. -/
theorem transferDraft_origins_eq (hfresh : p.OriginsFresh)
    (hnodup : ((p.localOriginsOf caller.id).map SummaryReturnOrigin.id).Nodup) :
    (p.transferDraft current caller).origins =
      Table.put SummaryReturnOrigin.id ∅ (p.originWrites current caller) := by
  have hfold : ∀ edges : List CallEdge, (∀ edge ∈ edges, edge ∈ p.callerEdges caller) →
      ∀ table : Table SummaryReturnOrigin,
      (∀ origin ∈ table.items, p.OriginSource current caller origin) →
      (∀ marker ∈ p.localOriginsOf caller.id, table[marker.id]? = some marker) →
      edges.foldl (p.originStep current caller) table =
        table.put SummaryReturnOrigin.id ((edges.filter fun edge =>
          p.Marked caller edge).flatMap (p.edgeOrigins current caller)) := by
    intro edges
    induction edges with
    | nil => exact fun _ table _ _ => rfl
    | cons edge edges ih =>
        intro hedges table hsource hlocal
        have hedge := hedges edge List.mem_cons_self
        rw [List.foldl_cons, ih (fun other hother => hedges other (List.mem_cons_of_mem _ hother)) _
          (p.originStep_source hedge hsource) (fun marker hmarker =>
            originStep_keeps hfresh hmarker (hlocal marker hmarker) edge)]
        have hmarked : table.items.any (marks edge.site) = true ↔ p.Marked caller edge := by
          rw [List.any_eq_true]
          constructor
          · rintro ⟨origin, horigin, hmarks⟩
            refine ⟨origin, (hsource origin horigin).resolve_right ?_, hmarks⟩
            rintro ⟨other, -, hpropagated, -⟩
            obtain ⟨source, -, rfl⟩ := List.mem_map.mp hpropagated
            rw [propagateOrigin_unmarked] at hmarks
            cases hmarks
          · rintro ⟨marker, hmarker, hmarks⟩
            exact ⟨marker, Table.mem_items.mpr ⟨_, hlocal marker hmarker⟩, hmarks⟩
        by_cases h : p.Marked caller edge
        · rw [originStep, if_pos (hmarked.mpr h), List.filter_cons_of_pos (by simpa using h),
            List.flatMap_cons, Table.put_append]
        · rw [originStep, if_neg fun hany => h (hmarked.mp hany),
            List.filter_cons_of_neg (by simpa using h)]
  rw [transferDraft_origins, hfold _ (fun _ h => h) _ ?_ ?_, originWrites, Table.put_append]
  · rfl
  · intro origin horigin
    exact .inl ((Table.mem_items_put horigin).resolve_left (by simp))
  · intro marker hmarker
    rw [initialOrigins, Table.getElem?_put,
      lastBy_of_nodup SummaryReturnOrigin.id hnodup hmarker]
    rfl

theorem transferDraft_origins_keyed (hids : p.DistinctIds) :
    (p.transferDraft current caller).origins.Keyed SummaryReturnOrigin.id := by
  rw [transferDraft_origins_eq hids.originFresh (hids.origins caller.id)]
  exact (Table.Keyed.empty _).put

theorem propagateOrigin_key (h : Function.Injective Fingerprint.digest) {edge edge' : CallEdge}
    {source source' : SummaryReturnOrigin}
    (hid : (p.propagateOrigin caller edge.site edge.target source edge.bodyAmbiguous).id =
      (p.propagateOrigin caller edge'.site edge'.target source' edge'.bodyAmbiguous).id) :
    originKey (p.propagateOrigin caller edge.site edge.target source edge.bodyAmbiguous) =
      originKey (p.propagateOrigin caller edge'.site edge'.target source' edge'.bodyAmbiguous) := by
  have hvalues := makeId_injective h _ hid
  simp only [List.cons.injEq, IdValue.text.injEq, IdValue.index.injEq, IdValue.texts.injEq,
    IdValue.optional.injEq, (Option.map_injective StrEnum.value_injective).eq_iff] at hvalues
  obtain ⟨-, hsite, htarget, hlocation, hparameter, hpath, hid', -⟩ := hvalues
  simp only [originKey, OriginKey.mk.injEq]
  exact ⟨hid, hlocation, hparameter, hpath, hid'⟩

theorem originWrites_key (hids : p.DistinctIds) (a : SummaryReturnOrigin)
    (ha : a ∈ p.originWrites current caller) (b : SummaryReturnOrigin)
    (hb : b ∈ p.originWrites current caller) (hid : a.id = b.id) : originKey a = originKey b := by
  have hpropagated {origin : SummaryReturnOrigin}
      (h : origin ∈ ((p.callerEdges caller).filter fun edge =>
        p.Marked caller edge).flatMap (p.edgeOrigins current caller)) :
      ∃ (edge : CallEdge) (source : SummaryReturnOrigin),
        p.propagateOrigin caller edge.site edge.target source edge.bodyAmbiguous = origin := by
    obtain ⟨edge, -, h⟩ := List.mem_flatMap.mp h
    obtain ⟨source, -, h⟩ := List.mem_map.mp h
    exact ⟨edge, source, h⟩
  rcases List.mem_append.mp ha with ha | ha <;> rcases List.mem_append.mp hb with hb | hb
  · rw [List.inj_on_of_nodup_map (hids.origins caller.id) ha hb hid]
  · obtain ⟨edge, source, rfl⟩ := hpropagated hb
    exact absurd hid (hids.originFresh a (mem_localOrigins_of ha) _)
  · obtain ⟨edge, source, rfl⟩ := hpropagated ha
    exact absurd hid.symm (hids.originFresh b (mem_localOrigins_of hb) _)
  · obtain ⟨edge, source, rfl⟩ := hpropagated ha
    obtain ⟨edge', source', rfl⟩ := hpropagated hb
    exact propagateOrigin_key hids.digest hid

def originKeyRow (caller : FunctionSummary) (edge : CallEdge)
    (place : Place (Option MemoryLocationKind)) : OriginKey where
  id := originId caller edge.site edge.target place
  locationKind := place.locationKind
  parameterIndex := place.parameterIndex
  accessPath := place.accessPath
  locationId := place.locationId

/-- The key of a callee's origin, one hop up. -/
def liftOriginKey (p : Problem) (caller : FunctionSummary) (edge : CallEdge) (key : OriginKey) :
    OriginKey :=
  match key.parameterIndex with
  | some index =>
      match p.binding? caller edge.site index with
      | none => originKeyRow caller edge ⟨some .unknown, none, [], none⟩
      | some binding =>
          originKeyRow caller edge ⟨some binding.locationKind, binding.parameterIndex,
            (binding.accessPath ++ key.accessPath).take 8, binding.locationId⟩
  | none => originKeyRow caller edge ⟨key.locationKind, none, key.accessPath, key.locationId⟩

theorem liftOriginKey_eq (edge : CallEdge) (origin : SummaryReturnOrigin) :
    p.liftOriginKey caller edge (originKey origin) =
      originKey (p.propagateOrigin caller edge.site edge.target origin edge.bodyAmbiguous) := by
  simp only [propagateOrigin, originPlace, liftOriginKey, originKey]
  cases origin.parameterIndex with
  | none => rfl
  | some index =>
      simp only
      cases p.binding? caller edge.site index <;> rfl

def HasOrigin (current : Environment) (id : String) (key : OriginKey) : Prop :=
  ∃ origin ∈ current.origins id, originKey origin = key

theorem transferDraft_origin_keys (hids : p.DistinctIds) (key : OriginKey) :
    (∃ origin ∈ (p.transferDraft current caller).origins.items, originKey origin = key) ↔
      (∃ origin ∈ p.localOriginsOf caller.id, originKey origin = key) ∨
        ∃ edge ∈ p.callerEdges caller, p.Marked caller edge ∧
          ∃ source, HasOrigin current edge.callee.id source ∧
            p.liftOriginKey caller edge source = key := by
  rw [transferDraft_origins_eq hids.originFresh (hids.origins caller.id),
    exists_mem_items_put (originWrites_key hids)]
  constructor
  · rintro ⟨origin, horigin, rfl⟩
    rcases List.mem_append.mp horigin with hlocal | hedges
    · exact .inl ⟨origin, hlocal, rfl⟩
    · obtain ⟨edge, hedge, hmem⟩ := List.mem_flatMap.mp hedges
      obtain ⟨hedge, hmarked⟩ := List.mem_filter.mp hedge
      obtain ⟨source, hsource, rfl⟩ := List.mem_map.mp hmem
      exact .inr ⟨edge, hedge, by simpa using hmarked, originKey source,
        ⟨source, hsource, rfl⟩, liftOriginKey_eq edge source⟩
  · rintro (⟨origin, hlocal, rfl⟩ | ⟨edge, hedge, hmarked, _, ⟨source, hsource, rfl⟩, rfl⟩)
    · exact ⟨origin, List.mem_append_left _ hlocal, rfl⟩
    · refine ⟨_, List.mem_append_right _ (List.mem_flatMap.mpr ⟨edge, ?_,
        List.mem_map.mpr ⟨source, hsource, rfl⟩⟩), (liftOriginKey_eq edge source).symm⟩
      exact List.mem_filter.mpr ⟨hedge, by simpa using hmarked⟩

end Problem

end CppContextEngine.Analysis
