import CppContextEngine.Analysis.Knowledge

/-!
# The three views of the facts

Keys range over a finite set because every part of a propagated key is one of
the input's own, and paths that are built at a call are cut at eight names.
-/

namespace CppContextEngine.Analysis

open CppContextEngine.Foundation CppContextEngine.Models

namespace Problem

/-! ## The parts of a key -/

section Parts

variable (p : Problem)

def ownPaths : List (List String) :=
  p.bindings.map CallArgumentBinding.accessPath ++
    (p.localEffects.map SummaryEffect.accessPath ++
      p.localOrigins.map SummaryReturnOrigin.accessPath)

def paths : Set (List String) :=
  {path | path ∈ p.ownPaths} ∪ {path | path.length ≤ 8 ∧ ∀ name ∈ path, name ∈ p.ownPaths.flatten}

def indices : List (Option Nat) :=
  none :: (p.bindings.map CallArgumentBinding.parameterIndex ++
    (p.localEffects.map SummaryEffect.parameterIndex ++
      p.localOrigins.map SummaryReturnOrigin.parameterIndex))

def locationIds : List (Option String) :=
  none :: (p.bindings.map CallArgumentBinding.locationId ++
    p.localOrigins.map SummaryReturnOrigin.locationId)

def accesses : List (Option String) := p.localEffects.map SummaryEffect.sourceAccessId

/-- Every body with every resolved call of it. -/
def allCalls : List (FunctionSummary × CallEdge) :=
  p.summaries.flatMap fun caller => (p.callerEdges caller).map fun edge => (caller, edge)

variable {p}

theorem mem_allCalls {caller : FunctionSummary} {edge : CallEdge} (hcaller : caller ∈ p.summaries)
    (hedge : edge ∈ p.callerEdges caller) : (caller, edge) ∈ p.allCalls :=
  List.mem_flatMap.mpr ⟨caller, hcaller, List.mem_map.mpr ⟨edge, hedge, rfl⟩⟩

theorem finite_bounded_lists {α : Type} (names : List α) (bound : Nat) :
    {path : List α | path.length ≤ bound ∧ ∀ name ∈ path, name ∈ names}.Finite := by
  have : Finite {name // name ∈ names} := (List.finite_toSet names).to_subtype
  refine ((List.finite_length_le {name // name ∈ names} bound).image
    (List.map Subtype.val)).subset ?_
  rintro path ⟨hlength, hnames⟩
  refine ⟨path.attachWith _ hnames, by simpa using hlength, ?_⟩
  simp

theorem finite_paths : p.paths.Finite :=
  (List.finite_toSet p.ownPaths).union (finite_bounded_lists _ 8)

theorem nil_mem_paths : [] ∈ p.paths := .inr ⟨Nat.zero_le 8, by simp⟩

theorem extended_mem_paths {binding : CallArgumentBinding} (hbinding : binding ∈ p.bindings)
    {path : List String} (hpath : path ∈ p.paths) :
    (binding.accessPath ++ path).take 8 ∈ p.paths := by
  refine .inr ⟨List.length_take_le 8 _, fun name hname => ?_⟩
  rcases List.mem_append.mp (List.mem_of_mem_take hname) with hown | hrest
  · refine List.mem_flatten.mpr ⟨binding.accessPath, ?_, hown⟩
    exact List.mem_append_left _ (List.mem_map_of_mem hbinding)
  · rcases hpath with hpath | hpath
    · exact List.mem_flatten.mpr ⟨path, hpath, hrest⟩
    · exact hpath.2 name hrest

theorem binding_mem {caller : FunctionSummary} {site : SummaryCallSiteProjection} {index : Nat}
    {binding : CallArgumentBinding} (h : p.binding? caller site index = some binding) :
    binding ∈ p.bindings :=
  mem_of_lastBy _ h

theorem index_of_binding {binding : CallArgumentBinding} (h : binding ∈ p.bindings) :
    binding.parameterIndex ∈ p.indices :=
  List.mem_cons_of_mem _ (List.mem_append_left _ (List.mem_map_of_mem h))

theorem none_mem_indices : none ∈ p.indices := List.mem_cons_self

end Parts

variable [Fingerprint] {p : Problem}

/-! ## Effects -/

section Effects

variable (p)

def effectIds : Set String :=
  {id | id ∈ p.localEffects.map SummaryEffect.id} ∪
    (fun parts : (FunctionSummary × CallEdge) × SummaryEffectKind × MemoryLocationKind ×
        Option Nat × List String × Option String =>
      effectKeyId parts.1.1 parts.1.2 parts.2.1 parts.2.2.1 parts.2.2.2.1 parts.2.2.2.2.1
        parts.2.2.2.2.2) ''
      ({call | call ∈ p.allCalls} ×ˢ Set.univ ×ˢ Set.univ ×ˢ {index | index ∈ p.indices} ×ˢ
        p.paths ×ˢ {access | access ∈ p.accesses})

/-- The effect keys of which every part is the input's own. -/
def effectRange : Set EffectKey :=
  {key | key.id ∈ p.effectIds ∧ key.parameterIndex ∈ p.indices ∧ key.accessPath ∈ p.paths ∧
    key.sourceAccessId ∈ p.accesses}

theorem finite_effectIds : p.effectIds.Finite := by
  have := StrEnum.finite SummaryEffectKind
  have := StrEnum.finite MemoryLocationKind
  refine (List.finite_toSet _).union (Set.Finite.image _ ?_)
  exact (List.finite_toSet _).prod (Set.finite_univ.prod (Set.finite_univ.prod
    ((List.finite_toSet _).prod (finite_paths.prod (List.finite_toSet _)))))

theorem finite_effectRange : p.effectRange.Finite := by
  have := StrEnum.finite SummaryEffectKind
  have := StrEnum.finite MemoryLocationKind
  refine (((p.finite_effectIds.prod ((Set.finite_univ (α := SummaryEffectKind)).prod
    ((Set.finite_univ (α := MemoryLocationKind)).prod ((List.finite_toSet p.indices).prod
      ((finite_paths (p := p)).prod (List.finite_toSet p.accesses)))))).image
    fun parts => EffectKey.mk parts.1 parts.2.1 parts.2.2.1 parts.2.2.2.1 parts.2.2.2.2.1
      parts.2.2.2.2.2)).subset ?_
  rintro ⟨id, kind, locationKind, index, path, access⟩ ⟨hid, hindex, hpath, haccess⟩
  exact ⟨(id, kind, locationKind, index, path, access),
    ⟨hid, Set.mem_univ _, Set.mem_univ _, hindex, hpath, haccess⟩, rfl⟩

variable {p}

theorem effectKey_mem_range {effect : SummaryEffect} (h : effect ∈ p.localEffects) :
    effectKey effect ∈ p.effectRange := by
  refine ⟨.inl (List.mem_map_of_mem (f := SummaryEffect.id) h), ?_, .inl ?_,
    List.mem_map_of_mem h⟩
  · exact List.mem_cons_of_mem _ (List.mem_append_right _
      (List.mem_append_left _ (List.mem_map_of_mem h)))
  · exact List.mem_append_right _ (List.mem_append_left _ (List.mem_map_of_mem h))

theorem liftEffectKey_mem_range {caller : FunctionSummary} (hcaller : caller ∈ p.summaries)
    {edge : CallEdge} (hedge : edge ∈ p.callerEdges caller) {source key : EffectKey}
    (hsource : source ∈ p.effectRange) (h : p.liftEffectKey caller edge source = some key) :
    key ∈ p.effectRange := by
  obtain ⟨-, -, hpath, haccess⟩ := hsource
  have hrow (locationKind : MemoryLocationKind) {index : Option Nat} (hindex : index ∈ p.indices)
      {path : List String} (hpath : path ∈ p.paths) :
      effectKeyRow caller edge source locationKind index path ∈ p.effectRange := by
    refine ⟨.inr ⟨((caller, edge), source.kind, locationKind, index, path,
      source.sourceAccessId), ?_, rfl⟩, hindex, hpath, haccess⟩
    exact ⟨mem_allCalls hcaller hedge, Set.mem_univ _, Set.mem_univ _, hindex, hpath, haccess⟩
  unfold liftEffectKey at h
  split at h
  · obtain ⟨binding, hbinding, rfl⟩ := Option.map_eq_some_iff.mp h
    have hmem := binding_mem hbinding
    exact hrow _ (index_of_binding hmem) (extended_mem_paths hmem hpath)
  · split at h
    · obtain rfl := Option.some.inj h
      exact hrow _ none_mem_indices hpath
    · cases h

/-- The keys of the effects. -/
def effectView (hids : p.DistinctIds) : p.View EffectKey where
  keys facts := {key | ∃ effect ∈ facts.effects, effectKey effect = key}
  own caller := {key | ∃ effect ∈ p.localEffectsOf caller.id, effectKey effect = key}
  lift := p.liftEffectKey
  range := p.effectRange
  initial _ _ _ hkey := hkey
  transfer current caller hfits key := by
    have hall : (p.transfer current caller).effects =
        (p.transferDraft current caller).effects.items := List.take_of_length_le hfits
    rw [Set.mem_ofPred_eq, hall, transferDraft_effect_keys hids]
    refine or_congr_right (exists_congr fun edge => and_congr_right fun _ => ?_)
    constructor
    · rintro ⟨_, ⟨effect, heffect, rfl⟩, hlift⟩
      obtain ⟨facts, hfacts, hmem⟩ := mem_effects.mp heffect
      exact ⟨facts, hfacts, _, ⟨effect, hmem, rfl⟩, hlift⟩
    · rintro ⟨facts, hfacts, _, ⟨effect, hmem, rfl⟩, hlift⟩
      exact ⟨_, ⟨effect, mem_effects.mpr ⟨facts, hfacts, hmem⟩, rfl⟩, hlift⟩
  finite := p.finite_effectRange
  own_range caller _ key := by
    rintro ⟨effect, heffect, rfl⟩
    exact effectKey_mem_range (mem_localEffects_of heffect)
  lift_range caller hcaller edge hedge source hsource key h :=
    liftEffectKey_mem_range hcaller hedge hsource h

end Effects

/-! ## Origins -/

section Origins

variable (p)

def originIds : Set String :=
  {id | id ∈ p.localOrigins.map SummaryReturnOrigin.id} ∪
    (fun parts : (FunctionSummary × CallEdge) × Option MemoryLocationKind × Option Nat ×
        List String × Option String =>
      originId parts.1.1 parts.1.2.site parts.1.2.target
        ⟨parts.2.1, parts.2.2.1, parts.2.2.2.1, parts.2.2.2.2⟩) ''
      ({call | call ∈ p.allCalls} ×ˢ Set.univ ×ˢ {index | index ∈ p.indices} ×ˢ
        p.paths ×ˢ {id | id ∈ p.locationIds})

/-- The origin keys of which every part is the input's own. -/
def originRange : Set OriginKey :=
  {key | key.id ∈ p.originIds ∧ key.parameterIndex ∈ p.indices ∧ key.accessPath ∈ p.paths ∧
    key.locationId ∈ p.locationIds}

theorem finite_originIds : p.originIds.Finite := by
  have := StrEnum.finite MemoryLocationKind
  refine (List.finite_toSet _).union (Set.Finite.image _ ?_)
  exact (List.finite_toSet _).prod (Set.finite_univ.prod ((List.finite_toSet _).prod
    (finite_paths.prod (List.finite_toSet _))))

theorem finite_originRange : p.originRange.Finite := by
  have := StrEnum.finite MemoryLocationKind
  refine (((p.finite_originIds.prod ((Set.finite_univ (α := Option MemoryLocationKind)).prod
    ((List.finite_toSet p.indices).prod ((finite_paths (p := p)).prod
      (List.finite_toSet p.locationIds))))).image
    fun parts => OriginKey.mk parts.1 parts.2.1 parts.2.2.1 parts.2.2.2.1 parts.2.2.2.2)).subset ?_
  rintro ⟨id, locationKind, index, path, locationId⟩ ⟨hid, hindex, hpath, hlocation⟩
  exact ⟨(id, locationKind, index, path, locationId),
    ⟨hid, Set.mem_univ _, hindex, hpath, hlocation⟩, rfl⟩

variable {p}

theorem originKey_mem_range {origin : SummaryReturnOrigin} (h : origin ∈ p.localOrigins) :
    originKey origin ∈ p.originRange := by
  refine ⟨.inl (List.mem_map_of_mem (f := SummaryReturnOrigin.id) h), ?_, .inl ?_, ?_⟩
  · exact List.mem_cons_of_mem _ (List.mem_append_right _
      (List.mem_append_right _ (List.mem_map_of_mem h)))
  · exact List.mem_append_right _ (List.mem_append_right _ (List.mem_map_of_mem h))
  · exact List.mem_cons_of_mem _ (List.mem_append_right _ (List.mem_map_of_mem h))

theorem liftOriginKey_mem_range {caller : FunctionSummary} (hcaller : caller ∈ p.summaries)
    {edge : CallEdge} (hedge : edge ∈ p.callerEdges caller) {source : OriginKey}
    (hsource : source ∈ p.originRange) : p.liftOriginKey caller edge source ∈ p.originRange := by
  obtain ⟨-, -, hpath, hlocation⟩ := hsource
  have hrow (place : Place (Option MemoryLocationKind)) (hindex : place.parameterIndex ∈ p.indices)
      (hpath : place.accessPath ∈ p.paths) (hlocation : place.locationId ∈ p.locationIds) :
      originKeyRow caller edge place ∈ p.originRange := by
    refine ⟨.inr ⟨((caller, edge), place.locationKind, place.parameterIndex, place.accessPath,
      place.locationId), ?_, rfl⟩, hindex, hpath, hlocation⟩
    exact ⟨mem_allCalls hcaller hedge, Set.mem_univ _, hindex, hpath, hlocation⟩
  unfold liftOriginKey
  split
  · split
    · exact hrow _ none_mem_indices nil_mem_paths List.mem_cons_self
    · rename_i binding hbinding
      have hmem := binding_mem hbinding
      refine hrow _ (index_of_binding hmem) (extended_mem_paths hmem hpath) ?_
      exact List.mem_cons_of_mem _ (List.mem_append_left _ (List.mem_map_of_mem hmem))
  · exact hrow _ none_mem_indices hpath hlocation

/-- The keys of the origins; only marked calls lift any. -/
def originView (hids : p.DistinctIds) : p.View OriginKey where
  keys facts := {key | ∃ origin ∈ facts.origins, originKey origin = key}
  own caller := {key | ∃ origin ∈ p.localOriginsOf caller.id, originKey origin = key}
  lift caller edge source :=
    if p.Marked caller edge then some (p.liftOriginKey caller edge source) else none
  range := p.originRange
  initial _ _ _ hkey := hkey
  transfer current caller _ key := by
    rw [Set.mem_ofPred_eq]
    refine (transferDraft_origin_keys hids key).trans ?_
    refine or_congr_right (exists_congr fun edge => and_congr_right fun _ => ?_)
    constructor
    · rintro ⟨hmarked, _, ⟨origin, horigin, rfl⟩, hlift⟩
      obtain ⟨facts, hfacts, hmem⟩ := mem_origins.mp horigin
      exact ⟨facts, hfacts, _, ⟨origin, hmem, rfl⟩, by rw [if_pos hmarked, hlift]⟩
    · rintro ⟨facts, hfacts, _, ⟨origin, hmem, rfl⟩, hlift⟩
      obtain ⟨hmarked, hlift⟩ := Option.ite_none_right_eq_some.mp hlift
      exact ⟨hmarked, _, ⟨origin, mem_origins.mpr ⟨facts, hfacts, hmem⟩, rfl⟩,
        Option.some.inj hlift⟩
  finite := p.finite_originRange
  own_range caller _ key := by
    rintro ⟨origin, horigin, rfl⟩
    exact originKey_mem_range (mem_localOrigins_of horigin)
  lift_range caller hcaller edge hedge source hsource key h := by
    obtain ⟨-, h⟩ := Option.ite_none_right_eq_some.mp h
    exact Option.some.inj h ▸ liftOriginKey_mem_range hcaller hedge hsource

end Origins

/-! ## Incompleteness -/

omit [Fingerprint] in
theorem incomplete_iff {current : Environment} {id : String} : current.incomplete id = true ↔
    ∃ facts, current[id]? = some facts ∧ ∃ text, text ∈ facts.reasons.texts := by
  unfold Environment.incomplete
  cases current[id]? with
  | none => simp
  | some facts =>
      simp only [Option.map_some, Option.getD_some, Bool.not_eq_true', Option.some.injEq,
        exists_eq_left']
      rw [← Bool.not_eq_true, Reasons.isEmpty_eq_true]
      push Not
      rfl

/-- Whether anything is unknown of a summary at all. -/
def reasonView (p : Problem) : p.View Unit where
  keys facts := {_key | ∃ text, text ∈ facts.reasons.texts}
  own caller := {_key | ∃ text, p.StaticReason caller text}
  lift _ _ _ := some ()
  range := Set.univ
  initial := by
    rintro summary - key ⟨text, htext⟩
    exact ⟨text, .own (Reasons.mem_ofLocal.mp htext)⟩
  transfer current caller hfits key := by
    simp only [Set.mem_ofPred_eq, mem_transfer_reasons]
    constructor
    · rintro ⟨text, hstatic | ⟨-, edge, hedge, hcallee⟩ | ⟨hcut, -⟩⟩
      · exact .inl ⟨text, hstatic⟩
      · obtain ⟨facts, hfacts, hreason⟩ := incomplete_iff.mp hcallee
        exact .inr ⟨edge, hedge, facts, hfacts, (), hreason, trivial⟩
      · exact absurd hcut (Nat.not_lt.mpr hfits)
    · rintro (⟨text, hstatic⟩ | ⟨edge, hedge, facts, hfacts, -, hreason, -⟩)
      · exact ⟨text, .inl hstatic⟩
      · exact ⟨_, .inr (.inl ⟨rfl, edge, hedge, incomplete_iff.mpr ⟨facts, hfacts, hreason⟩⟩)⟩
  finite := Set.finite_univ
  own_range _ _ := Set.subset_univ _
  lift_range _ _ _ _ _ _ _ _ := Set.mem_univ _

end Problem

end CppContextEngine.Analysis
