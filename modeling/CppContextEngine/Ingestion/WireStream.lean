import CppContextEngine.Analyzer.FunctionFacts
import CppContextEngine.Ingestion.WireTransparency

/-!
# Streams with compact keys

A stream is the lines of the facts that the sink has kept, in any order.  Each
family is read after the families that it refers to, so every reference finds
the identity that its definition has left.
-/

namespace CppContextEngine.Ingestion

open CppContextEngine.Foundation CppContextEngine.Analyzer

section Streams

variable [NativeLibrary]

/-- The keys that the facts of a stream define. -/
def definedKeys (facts : List EmittedFact) : List String :=
  facts.filterMap fun fact => fact.defines.map Identity.key

/-- No two of the keys have one digest. -/
def CollisionFree (keys : List String) : Prop :=
  ∀ key ∈ keys, ∀ key' ∈ keys,
    NativeLibrary.hexdigest (utf8 key) = NativeLibrary.hexdigest (utf8 key') → key = key'

/-- Every fact comes once, and what it refers to comes too. -/
structure Complete (order : List EmittedFact) : Prop where
  distinct : (order.map EmittedFact.sortKey).Nodup
  closed : ∀ fact ∈ order, ∀ identity ∈ fact.identities, ∃ definition ∈ order, ∃ identity',
    definition.defines = some identity' ∧ identity'.family = identity.family ∧
      identity'.key = identity.key

section Stream

variable {identities : WireIdentities} {fact : EmittedFact} {order : List EmittedFact}

omit [NativeLibrary] in
theorem own_of_defines {identity : Identity} (h : fact.defines = some identity) :
    fact.own = some (identity.family, identity.key) := by
  cases fact <;> cases h <;> rfl

omit [NativeLibrary] in
/-- The facts of a definition family define something of that family. -/
theorem kind_eq_iff {definition : String × WireFamily} (hmem : definition ∈ definitionFamilies) :
    fact.kind = definition.1 ↔
      ∃ identity, fact.defines = some identity ∧ identity.family = definition.2 := by
  have hfamilies : ∀ definition ∈ definitionFamilies, ownFamily definition.1 = some definition.2 ∧
      definition.2 ≠ .evidence ∧ definition.2 ≠ .effect := by decide
  have hkinds : ∀ definition ∈ definitionFamilies, ∀ definition' ∈ definitionFamilies,
      definition.2 = definition'.2 → definition.1 = definition'.1 := by decide
  constructor
  · intro hkind
    obtain ⟨hfamily, hevidence, heffect⟩ := hfamilies definition hmem
    rw [← hkind, EmittedFact.ownFamily_kind] at hfamily
    obtain ⟨⟨family, key⟩, hown, rfl⟩ := Option.map_eq_some_iff.mp hfamily
    cases fact <;> simp_all [EmittedFact.own, EmittedFact.defines]
  · rintro ⟨identity, hdefines, hfamily⟩
    have hown : (fact.kind, identity.family) ∈ definitionFamilies := by
      cases fact <;> cases hdefines <;>
        simp [definitionFamilies, wireFactKeys, EmittedFact.kind, Identity.family]
    exact hkinds _ hown _ hmem hfamily

theorem line_hasText_iff {kind : String} :
    (FactSink.line fact).hasText "fact" kind = true ↔ fact.kind = kind := by
  rw [Record.hasText_iff, line_of_mem fact.kind_mem (by decide)]
  simp

theorem mem_factRecords_lines {definition : String × WireFamily}
    (hmem : definition ∈ definitionFamilies) {line : Record} :
    line ∈ factRecords (order.map FactSink.line) definition.1 ↔
      ∃ fact ∈ order, FactSink.line fact = line ∧
        ∃ identity, fact.defines = some identity ∧ identity.family = definition.2 := by
  unfold factRecords
  rw [List.mem_filter, List.mem_map]
  constructor
  · rintro ⟨⟨fact, hfact, rfl⟩, htext⟩
    exact ⟨fact, hfact, rfl, (kind_eq_iff hmem).mp (line_hasText_iff.mp htext)⟩
  · rintro ⟨fact, hfact, rfl, hdefines⟩
    exact ⟨⟨fact, hfact, rfl⟩, line_hasText_iff.mpr ((kind_eq_iff hmem).mpr hdefines)⟩

/-- The compact key of a definition's line. -/
theorem compactKey_line {identity : Identity} (hdefines : fact.defines = some identity) :
    compactKey identity.family (FactSink.line fact) =
      if 66 < (utf8 identity.key).length then some (wireKey identity.key identity.family)
      else none := by
  have hkey := (line_of_own (own_of_defines hdefines)).1
  simp only [compactKey, get_eq_text.mpr hkey]
  split
  · rename_i hcompact
    rw [if_pos]
    by_contra hshort
    rw [wireKey, if_pos (Nat.not_lt.mp hshort), identity_not_compact] at hcompact
    cases hcompact
  · rename_i hplain
    rw [if_neg]
    exact fun hlong => hplain (isCompact_wireKey hlong)

/-- Long keys with one compact key are the same key. -/
theorem key_eq_of_wireKey_eq (hdigests : CollisionFree (definedKeys order))
    {fact' : EmittedFact} (hfact : fact ∈ order) (hfact' : fact' ∈ order)
    {identity identity' : Identity} (hdefines : fact.defines = some identity)
    (hdefines' : fact'.defines = some identity') (hlong : 66 < (utf8 identity.key).length)
    (hlong' : 66 < (utf8 identity'.key).length) (family : WireFamily)
    (h : wireKey identity.key family = wireKey identity'.key family) :
    identity.key = identity'.key := by
  have hmem {fact : EmittedFact} (hfact : fact ∈ order) {identity : Identity}
      (hdefines : fact.defines = some identity) : identity.key ∈ definedKeys order :=
    List.mem_filterMap.mpr ⟨fact, hfact, by rw [hdefines]; rfl⟩
  rw [wireKey, wireKey, if_neg (Nat.not_le.mpr hlong), if_neg (Nat.not_le.mpr hlong'),
    String.append_right_inj] at h
  exact hdigests _ (hmem hfact hdefines) _ (hmem hfact' hdefines') h

omit [NativeLibrary] in
theorem sortKey_eq_of_key_eq {fact' : EmittedFact} {identity identity' : Identity}
    (hdefines : fact.defines = some identity) (hdefines' : fact'.defines = some identity')
    (hfamily : identity.family = identity'.family) (hkey : identity.key = identity'.key) :
    fact.sortKey = fact'.sortKey := by
  rw [EmittedFact.sortKey_eq_iff]
  refine ⟨?_, (EmittedFact.key_eq_iff hdefines hdefines' hfamily).mpr hkey⟩
  cases fact <;> cases hdefines <;> cases fact' <;> cases hdefines' <;>
    simp only [Identity.family, reduceCtorEq] at hfamily <;> rfl

/-- The facts of a family have different compact keys. -/
theorem nodup_compactKeys (horder : Complete order) (hdigests : CollisionFree (definedKeys order))
    {definition : String × WireFamily} (hmem : definition ∈ definitionFamilies) :
    ((factRecords (order.map FactSink.line) definition.1).filterMap
      (compactKey definition.2)).Nodup := by
  unfold List.Nodup factRecords
  rw [List.pairwise_filterMap, List.pairwise_filter, List.pairwise_map]
  refine (List.pairwise_map.mp horder.distinct).imp_of_mem ?_
  intro fact fact' hfact hfact' hne htext htext' key hkey key' hkey' hsame
  obtain ⟨identity, hdefines, hfamily⟩ := (kind_eq_iff hmem).mp (line_hasText_iff.mp htext)
  obtain ⟨identity', hdefines', hfamily'⟩ := (kind_eq_iff hmem).mp (line_hasText_iff.mp htext')
  have hcompact := compactKey_line hdefines
  have hcompact' := compactKey_line hdefines'
  rw [hfamily, hkey, eq_comm, Option.ite_none_right_eq_some] at hcompact
  rw [hfamily', hkey', eq_comm, Option.ite_none_right_eq_some] at hcompact'
  obtain ⟨hlong, hwire⟩ := hcompact
  obtain ⟨hlong', hwire'⟩ := hcompact'
  refine hne (sortKey_eq_of_key_eq hdefines hdefines' (hfamily.trans hfamily'.symm) ?_)
  exact key_eq_of_wireKey_eq hdigests hfact hfact' hdefines hdefines' hlong hlong' definition.2
    ((Option.some.inj hwire).trans (hsame.trans (Option.some.inj hwire').symm))

/-- A line defines the identity of its fact. -/
theorem defines_line (hdefined : ∀ reference ∈ fact.references, ∀ identity,
      fact.defines = some identity → reference.2.family.rank < identity.family.rank →
        Restorable identities reference.2.family reference.2.key)
    {identity : Identity} (hdefines : fact.defines = some identity)
    (hlong : 66 < (utf8 identity.key).length) :
    Defines identities identity.family (FactSink.line fact)
      (wireKey identity.key identity.family) identity.key where
  compact := by rw [compactKey_line hdefines, if_pos hlong]
  reconstructed := definedIdentity_line hdefines
    (fun reference hreference hrank => hdefined reference hreference identity hdefines hrank) hlong
  digest := rfl
  long := hlong

/-- Short keys are their own references. -/
theorem restorable_of_short {identity : Identity} (hshort : ¬ 66 < (utf8 identity.key).length) :
    Restorable identities identity.family identity.key := by
  rw [Restorable, wireKey, if_pos (Nat.not_lt.mp hshort), wireReferenceText,
    identity_not_compact]
  rfl

/-- What a family defines can be restored once its facts have been read. -/
theorem prepareFamily_ok (horder : Complete order) (hdigests : CollisionFree (definedKeys order))
    {definition : String × WireFamily} (hmem : definition ∈ definitionFamilies)
    (hempty : identities definition.2 = ∅)
    (hread : ∀ fact ∈ order, ∀ identity, fact.defines = some identity →
      identity.family.rank < definition.2.rank →
        Restorable identities identity.family identity.key) :
    ∃ identities', prepareFamily (order.map FactSink.line) identities definition =
      .ok identities' ∧ ∀ fact ∈ order, ∀ identity, fact.defines = some identity →
        identity.family = definition.2 → Restorable identities' identity.family identity.key := by
  have hdefines {fact : EmittedFact} (hfact : fact ∈ order) {identity : Identity}
      (hidentity : fact.defines = some identity) (hfamily : identity.family = definition.2)
      (hlong : 66 < (utf8 identity.key).length) :
      Defines identities definition.2 (FactSink.line fact)
        (wireKey identity.key definition.2) identity.key := by
    rw [← hfamily]
    refine defines_line (fun reference hreference identity' hidentity' hrank => ?_) hidentity hlong
    obtain rfl := Option.some.inj (hidentity.symm.trans hidentity')
    obtain ⟨other, hother, identity', hother', hsame, hkey⟩ := horder.closed fact hfact reference.2
      (List.mem_append_left _ (List.mem_map_of_mem hreference))
    rw [← hsame, ← hkey]
    exact hread other hother identity' hother' (by rwa [hsame, ← hfamily])
  have hfacts : ∀ line ∈ factRecords (order.map FactSink.line) definition.1,
      ∃ key, line.string "key" = .ok key ∧ (isCompact definition.2 key = true →
        (identities definition.2)[key]? = none ∧
          ∃ identity, Defines identities definition.2 line key identity) := by
    intro line hline
    obtain ⟨fact, hfact, rfl, identity, hidentity, hfamily⟩ := (mem_factRecords_lines hmem).mp hline
    refine ⟨wireKey identity.key identity.family, string_of_getElem?
      (line_of_own (own_of_defines hidentity)).1 (wireKey_ne_empty identity), fun hcompact => ?_⟩
    have hlong : 66 < (utf8 identity.key).length := by
      by_contra hshort
      rw [wireKey, if_pos (Nat.not_lt.mp hshort), identity_not_compact] at hcompact
      cases hcompact
    rw [hempty, hfamily]
    exact ⟨by simp, identity.key, hdefines hfact hidentity hfamily hlong⟩
  obtain ⟨identities', hok⟩ := foldlM_prepareFact_ok hfacts (nodup_compactKeys horder hdigests hmem)
  refine ⟨identities', hok, fun fact hfact identity hidentity hfamily => ?_⟩
  by_cases hlong : 66 < (utf8 identity.key).length
  · have hkey : (identities' definition.2)[wireKey identity.key definition.2]? =
        some identity.key := by
      refine ((foldlM_prepareFact_spec hok).2.2 _ _).mpr (.inr ⟨FactSink.line fact, ?_, ?_⟩)
      · exact (mem_factRecords_lines hmem).mpr ⟨fact, hfact, rfl, identity, hidentity, hfamily⟩
      · refine (hdefines hfact hidentity hfamily hlong).congr fun other hrank => ?_
        exact (foldlM_prepareFact_other hok (by rintro rfl; exact lt_irrefl _ hrank)).symm
    rw [Restorable, hfamily, wireReferenceText, if_pos (isCompact_wireKey hlong), hkey]
  · exact restorable_of_short hlong

theorem restorable_congr {identities' : WireIdentities} {family : WireFamily}
    {key : String} (h : identities' family = identities family) :
    Restorable identities' family key ↔ Restorable identities family key := by
  unfold Restorable wireReferenceText
  rw [h]

/-- The families are read one after another. -/
theorem foldlM_prepareFamily_ok (horder : Complete order)
    (hdigests : CollisionFree (definedKeys order)) {families : List (String × WireFamily)}
    (hranks : families.Pairwise fun first second => first.2.rank < second.2.rank)
    (hfamilies : ∀ definition ∈ families, definition ∈ definitionFamilies) :
    ∀ identities : WireIdentities, (∀ definition ∈ families, identities definition.2 = ∅) →
      (∀ fact ∈ order, ∀ identity, fact.defines = some identity →
        identity.family ∉ families.map Prod.snd →
          Restorable identities identity.family identity.key) →
      ∃ identities', families.foldlM (prepareFamily (order.map FactSink.line)) identities =
        .ok identities' ∧ ∀ fact ∈ order, ∀ identity, fact.defines = some identity →
          Restorable identities' identity.family identity.key := by
  induction families with
  | nil => exact fun _ _ hread => ⟨_, rfl, fun fact hfact identity h => hread fact hfact identity h
      List.not_mem_nil⟩
  | cons first families ih =>
      intro identities hempty hread
      obtain ⟨hfirst, hranks⟩ := List.pairwise_cons.mp hranks
      obtain ⟨next, hnext, hprepared⟩ := prepareFamily_ok horder hdigests
        (hfamilies first List.mem_cons_self) (hempty first List.mem_cons_self)
        (fun fact hfact identity hidentity hrank => hread fact hfact identity hidentity fun hmem => by
          obtain ⟨definition, hdefinition, hfamily⟩ := List.mem_map.mp hmem
          rw [← hfamily] at hrank
          rcases List.mem_cons.mp hdefinition with rfl | hdefinition
          · exact lt_irrefl _ hrank
          · exact absurd (hfirst definition hdefinition) hrank.asymm)
      have hother {family : WireFamily} (hne : family ≠ first.2) : next family = identities family :=
        foldlM_prepareFact_other hnext hne
      have hunread : ∀ definition ∈ families, next definition.2 = ∅ := by
        intro definition hdefinition
        rw [hother, hempty definition (List.mem_cons_of_mem _ hdefinition)]
        intro hsame
        have hrank := hfirst definition hdefinition
        rw [hsame] at hrank
        exact lt_irrefl _ hrank
      have hreadable : ∀ fact ∈ order, ∀ identity, fact.defines = some identity →
          identity.family ∉ families.map Prod.snd →
            Restorable next identity.family identity.key := by
        intro fact hfact identity hidentity hlater
        by_cases hfamily : identity.family = first.2
        · exact hprepared fact hfact identity hidentity hfamily
        · rw [restorable_congr (hother hfamily)]
          refine hread fact hfact identity hidentity ?_
          rw [List.map_cons, List.mem_cons, not_or]
          exact ⟨hfamily, hlater⟩
      obtain ⟨identities', hok, hrestorable⟩ := ih hranks
        (fun definition h => hfamilies definition (List.mem_cons_of_mem _ h)) next hunread hreadable
      refine ⟨identities', ?_, hrestorable⟩
      rw [List.foldlM_cons, hnext]
      exact hok

omit [NativeLibrary] in
theorem family_mem (identity : Identity) :
    identity.family ∈ definitionFamilies.map Prod.snd := by
  cases identity <;> simp only [Identity.family] <;> decide

/-- A complete stream is read back, whatever its order. -/
theorem readWireFacts_lines (horder : Complete order)
    (hdigests : CollisionFree (definedKeys order)) :
    readWireFacts (order.map FactSink.line) = .ok (order.map EmittedFact.logical) := by
  obtain ⟨identities, hprepared, hrestorable⟩ := foldlM_prepareFamily_ok horder hdigests
    definitionFamilies_ranks (fun _ h => h) (fun _ => ∅) (fun _ _ => rfl)
    fun fact hfact identity hidentity hunread => absurd (family_mem identity) hunread
  refine bind_eq_ok.mpr ⟨identities, hprepared, mapM_ok_iff.mpr ?_⟩
  rw [List.forall₂_map_left_iff, List.forall₂_map_right_iff, List.forall₂_same]
  intro fact hfact
  refine restoreWireFact_line (fun identity hidentity => ?_)
    fun identity hidentity => hrestorable fact hfact identity hidentity
  obtain ⟨definition, hdefinition, identity', hdefines, hfamily, hkey⟩ :=
    horder.closed fact hfact identity hidentity
  rw [← hfamily, ← hkey]
  exact hrestorable definition hdefinition identity' hdefines

end Stream

/-! ## What the analyzer emits -/

/-- A fact that neither defines a compact key nor refers to one. -/
structure PlainFact where
  kind : PlainKind
  sortKey : String
  details : Details

/-- The facts of a translation unit, added to the sink in some order. -/
structure Emission where
  functions : List FunctionFacts
  plain : List PlainFact
  added : List EmittedFact
  added_perm : added.Perm (functions.flatMap FunctionFacts.facts ++
    plain.map fun fact => .plain fact.kind fact.sortKey fact.details)

namespace Emission

variable (emission : Emission)

/-- What is left of the facts in the stream. -/
def kept : List EmittedFact := FactSink.addAll emission.added

omit [NativeLibrary] in
/-- The sink keeps every definition that a kept fact refers to. -/
theorem complete {order : List EmittedFact} (horder : order.Perm emission.kept) :
    Complete order where
  distinct := (horder.map EmittedFact.sortKey).nodup_iff.mpr (FactSink.nodup_addAll _)
  closed := by
    intro fact hfact identity hidentity
    have hadded := emission.added_perm.mem_iff.mp
      (FactSink.mem_of_mem_addAll (horder.mem_iff.mp hfact))
    rcases List.mem_append.mp hadded with hmem | hmem
    · obtain ⟨function, hfunction, hmem⟩ := List.mem_flatMap.mp hmem
      obtain ⟨definition, hdefinition, hdefines⟩ :=
        FunctionFacts.closed fact hmem identity hidentity
      have hdefinition : definition ∈ emission.added := by
        refine emission.added_perm.mem_iff.mpr (List.mem_append_left _ (List.mem_flatMap.mpr
          ⟨function, hfunction, FunctionFacts.mem_facts_of_definitions hdefinition⟩))
      obtain ⟨kept, hkept, hsame⟩ := FactSink.exists_mem_addAll hdefinition
      obtain ⟨identity', hidentity', hfamily, hkey⟩ :=
        EmittedFact.defines_of_sortKey_eq hsame.symm hdefines
      exact ⟨kept, horder.mem_iff.mpr hkept, identity', hidentity', hfamily, hkey⟩
    · obtain ⟨plain, -, rfl⟩ := List.mem_map.mp hmem
      simp [EmittedFact.identities, EmittedFact.references,
        EmittedFact.parameterLocations] at hidentity

end Emission

end Streams

/-! ## A function with a long name -/

def sampleFunction : String := "usr:c:@N@geometry@S@Polygon@F@triangulate#&1$@S@Vertices#"

/-- SHA-256 where the sample needs it. -/
def sampleDigest (data : Bytes) : String :=
  match [(utf8 (graphKey sampleFunction), "0a98ee5a79b3eab46ebe2e123910e6bc5be89afda8a941847cc4d67a32799b00"),
    (utf8 (blockKey sampleFunction 0), "06e06abd81a8fa4eed960eb0f886c1be0959cd5eb36e3f1c9d55d403a2ecad36"),
    (utf8 (blockKey sampleFunction 1), "6d15239abe4010e8ceec412303dc8dd5e81e7a62150ec7d32e4cef1a7bda5dba"),
    (utf8 (analysisKey sampleFunction), "5c996d4027d131db04f444106d74d67b118f7af264cf41c444e34a3932ac6da4"),
    (utf8 ((Identity.location sampleFunction "unknown").key), "9e3daf1d961c2592e6f023d33203b8e0f35b51844c62085f44f05c49b984d375"),
    (utf8 ((Identity.access sampleFunction 1 0).key), "a149332ddc68fdc2a164bc7d7fdee3894c32f0ddb148cab9fac797b8fadef2ed")].lookup data with
  | some digest => digest
  | none => "e3b0c44298fc1c149afbf4c8996fb92427ae41e4649b934ca495991b7852b855"

@[reducible] def longNameLibrary : NativeLibrary where
  hexdigest := sampleDigest
  str _ := ""

def noDetails : Details := ⟨∅, fun _ _ => by simp⟩

/-- Two blocks, a parameter that is not tracked and its access; most keys are long. -/
def sampleFacts : FunctionFacts where
  function := sampleFunction
  blocks := 2
  elements := fun _ => 0
  accesses := fun block => block
  locations := 1
  locationName := fun _ => "unknown"
  locationBase := fun _ => none
  accessElement := fun _ _ => none
  accessLocation := fun _ _ => 0
  entry := 1
  normalExit := 0
  edges := [(1, 0, 0, "reachable", noDetails)]
  accessEvidence := []
  aliasEvidence := []
  effects := []
  returnOrigins := []
  argumentBindings := []
  resultBindings := []
  parameters := [0]
  graphDetails := noDetails
  blockDetails := fun _ => noDetails
  elementDetails := fun _ _ => noDetails
  analysisDetails := noDetails
  locationDetails := fun _ => noDetails
  accessDetails := fun _ _ => noDetails
  summaryDetails := noDetails

def sampleEmission : Emission where
  functions := [sampleFacts]
  plain := []
  added := sampleFacts.facts
  added_perm := by simp

theorem sample_collisionFree :
    @CollisionFree longNameLibrary (definedKeys sampleEmission.kept) := by
  unfold CollisionFree
  decide +kernel

end CppContextEngine.Ingestion
