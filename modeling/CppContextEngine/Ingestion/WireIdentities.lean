import CppContextEngine.Ingestion.SymbolText
import CppContextEngine.Ingestion.WireKeys

/-!
# Identities behind compact keys

`_prepare_wire_keys` reads the six families of definitions one after another
and rebuilds the identity of each compact key from the fields of its fact.  A
family refers only to families that have been read before it.
-/

namespace CppContextEngine.Ingestion

open CppContextEngine.Foundation

/-- The families whose facts define what others refer to, in reading order. -/
def definitionFamilies : List (String × WireFamily) := wireFactKeys.take 6

section Identity

variable (identities : WireIdentities)

/-- `_wire_reference` of a text -/
def wireReferenceText (key : String) (family : WireFamily) : Except IngestError String :=
  if isCompact family key then
    match (identities family)[key]? with
    | some identity => .ok identity
    | none => protocolError "analyzer compact key references an unknown identity"
  else .ok key

/-- The identity that the fields of a definition spell out. -/
def definedIdentity (family : WireFamily) (fact : Record) : Except IngestError String :=
  match family with
  | .graph => do
      let function ← fact.string "function_key"
      return "cfg:" ++ function
  | .block => do
      let graph ← wireReferenceText identities (← fact.string "graph_key") .graph
      return graph ++ ":block:" ++ toString (← fact.nonNegativeInteger "index")
  | .element => do
      let block ← wireReferenceText identities (← fact.string "block_key") .block
      return block ++ ":element:" ++ toString (← fact.nonNegativeInteger "index")
  | .analysis => do
      let graph ← wireReferenceText identities (← fact.string "graph_key") .graph
      return "data-flow:" ++ graph
  | .location => fact.string "identity_key"
  | _ => do
      let block ← wireReferenceText identities (← fact.string "block_key") .block
      return block ++ ":access:" ++ toString (← fact.nonNegativeInteger "sequence")

theorem wireReference_text (key : String) (family : WireFamily) :
    wireReference identities (.text key) family =
      Json.text <$> wireReferenceText identities key family := by
  simp only [wireReference, wireReferenceText]
  cases isCompact family key with
  | false => rfl
  | true => cases (identities family)[key]? <;> rfl

end Identity

/-- The compact key of a definition. -/
def compactKey (family : WireFamily) (fact : Record) : Option String :=
  match fact.get "key" with
  | .text key => if isCompact family key then some key else none
  | _ => none

section CompactKey

variable {identities identities' : WireIdentities} {family : WireFamily} {fact : Record} {key : String}

theorem string_of_compactKey (h : compactKey family fact = some key) :
    isCompact family key = true ∧ fact.get "key" = .text key := by
  unfold compactKey at h
  split at h
  · rename_i text htext
    obtain ⟨hcompact, hkey⟩ := Option.ite_none_right_eq_some.mp h
    cases hkey
    exact ⟨hcompact, htext⟩
  · cases h

theorem compact_ne_empty (h : isCompact family key = true) : key ≠ "" := by
  rintro rfl
  cases family <;> revert h <;> decide

theorem string_key_of_compactKey (h : compactKey family fact = some key) :
    fact.string "key" = .ok key := by
  obtain ⟨hcompact, hkey⟩ := string_of_compactKey h
  simp [Record.string, hkey, compact_ne_empty hcompact]

theorem compactKey_of_string (family : WireFamily) (h : fact.string "key" = .ok key) :
    compactKey family fact = if isCompact family key then some key else none := by
  unfold Record.string at h
  unfold compactKey
  split at h
  · split at h
    · cases h
    · cases h
      rename_i text htext _
      simp [htext]
  · cases h

/-- The place of a family in the order of reading. -/
def WireFamily.rank : WireFamily → Nat
  | graph => 0
  | block => 1
  | element => 2
  | analysis => 3
  | location => 4
  | access => 5
  | evidence => 6
  | effect => 7

theorem WireFamily.rank_injective : Function.Injective WireFamily.rank := by
  intro family family' h
  cases family <;> cases family' <;> first | rfl | cases h

/-- A definition only reads families of lower rank. -/
theorem definedIdentity_congr (h : ∀ other : WireFamily, other.rank < family.rank →
    identities other = identities' other) :
    definedIdentity identities family fact = definedIdentity identities' family fact := by
  have htext (key : String) (other : WireFamily) (hother : other.rank < family.rank) :
      wireReferenceText identities key other = wireReferenceText identities' key other := by
    unfold wireReferenceText
    rw [h other hother]
  cases family <;> simp only [definedIdentity]
  case block => simp only [htext _ .graph (by decide)]
  case element => simp only [htext _ .block (by decide)]
  case analysis => simp only [htext _ .graph (by decide)]
  all_goals simp only [htext _ .block (by decide)]

end CompactKey

/-! ## The loop -/

variable [NativeLibrary]

/-- One round of the loop of `_prepare_wire_keys`. -/
def prepareFact (family : WireFamily) (identities : WireIdentities) (fact : Record) :
    Except IngestError WireIdentities := do
  let key ← fact.string "key"
  if isCompact family key then do
    let identity ← definedIdentity identities family fact
    throwIf ((utf8 identity).length ≤ 66 ∨ wireKey identity family ≠ key ∨
        (identities family)[key]?.isSome)
      (IngestError.protocol "analyzer compact identity is inconsistent or duplicated")
    return Function.update identities family ((identities family).insert key identity)
  else return identities

/-- The facts of one family. -/
def prepareFamily (facts : List Record) (identities : WireIdentities)
    (definition : String × WireFamily) : Except IngestError WireIdentities :=
  (factRecords facts definition.1).foldlM (prepareFact definition.2) identities

/-- `_prepare_wire_keys` -/
def prepareWireKeys (facts : List Record) : Except IngestError WireIdentities :=
  definitionFamilies.foldlM (prepareFamily facts) fun _ => ∅

/-- The facts of a stream with their keys restored. -/
def readWireFacts (facts : List Record) : Except IngestError (List Record) := do
  let identities ← prepareWireKeys facts
  facts.mapM (restoreWireFact identities)

/-! ## One definition -/

/-- `fact` defines `identity` under its compact key. -/
structure Defines (identities : WireIdentities) (family : WireFamily) (fact : Record)
    (key identity : String) : Prop where
  compact : compactKey family fact = some key
  reconstructed : definedIdentity identities family fact = .ok identity
  digest : wireKey identity family = key
  long : 66 < (utf8 identity).length

section Definition

variable {identities identities' : WireIdentities} {family : WireFamily} {fact : Record}
  {key identity : String}

theorem Defines.congr (hdefines : Defines identities family fact key identity)
    (h : ∀ other : WireFamily, other.rank < family.rank → identities other = identities' other) :
    Defines identities' family fact key identity where
  compact := hdefines.compact
  reconstructed := by rw [← definedIdentity_congr h, hdefines.reconstructed]
  digest := hdefines.digest
  long := hdefines.long

theorem Defines.unique (h : Defines identities family fact key identity) {key' identity' : String}
    (h' : Defines identities family fact key' identity') : key = key' ∧ identity = identity' :=
  ⟨Option.some.inj (h.compact.symm.trans h'.compact),
    Except.ok.inj (h.reconstructed.symm.trans h'.reconstructed)⟩

/-- What one round does. -/
theorem prepareFact_ok_iff : prepareFact family identities fact = .ok identities' ↔
    ∃ key, fact.string "key" = .ok key ∧
      ((isCompact family key = false ∧ identities' = identities) ∨
        ∃ identity, Defines identities family fact key identity ∧
          (identities family)[key]? = none ∧
          identities' = Function.update identities family
            ((identities family).insert key identity)) := by
  unfold prepareFact
  rw [bind_eq_ok]
  refine exists_congr fun key => and_congr_right fun hkey => ?_
  have hcompactKey := compactKey_of_string family hkey
  cases hcompact : isCompact family key with
  | false =>
      simp [pure, Except.pure, eq_comm]
      intro identity hdefines
      have := hdefines.compact
      simp [hcompactKey, hcompact] at this
  | true =>
      simp only [↓reduceIte, bind_eq_ok, throwIf_eq_ok, not_or, Nat.not_le, ne_eq, not_not,
        Option.not_isSome_iff_eq_none, Bool.true_eq_false, false_and, false_or]
      rw [hcompact, if_pos rfl] at hcompactKey
      constructor
      · rintro ⟨identity, hidentity, _, ⟨hlong, hdigest, hfresh⟩, hok⟩
        cases hok
        exact ⟨identity, ⟨hcompactKey, hidentity, hdigest, hlong⟩, hfresh, rfl⟩
      · rintro ⟨identity, hdefines, hfresh, rfl⟩
        exact ⟨identity, hdefines.reconstructed, (), ⟨hdefines.long, hdefines.digest, hfresh⟩, rfl⟩

end Definition

/-! ## One family -/

/-- What the facts of a family leave in its table. -/
structure FamilyRead (facts : List Record) (family : WireFamily) (identities : WireIdentities) :
    Prop where
  nodup : (facts.filterMap (compactKey family)).Nodup
  defined : ∀ fact ∈ facts, ∀ key, compactKey family fact = some key →
    ∃ identity, Defines identities family fact key identity
  table : ∀ key identity, (identities family)[key]? = some identity ↔
    ∃ fact ∈ facts, Defines identities family fact key identity

section Family

variable {family : WireFamily} {facts : List Record}

theorem prepareFact_other {identities identities' : WireIdentities} {fact : Record}
    (h : prepareFact family identities fact = .ok identities') {other : WireFamily}
    (hother : other ≠ family) : identities' other = identities other := by
  obtain ⟨key, -, ⟨-, rfl⟩ | ⟨identity, -, -, rfl⟩⟩ := prepareFact_ok_iff.mp h
  · rfl
  · exact Function.update_of_ne hother _ _

theorem foldlM_prepareFact_other : ∀ {identities identities' : WireIdentities},
    facts.foldlM (prepareFact family) identities = .ok identities' →
      ∀ {other : WireFamily}, other ≠ family → identities' other = identities other := by
  induction facts with
  | nil =>
      intro identities identities' h other hother
      cases h
      rfl
  | cons fact facts ih =>
      intro identities identities' h other hother
      rw [List.foldlM_cons] at h
      obtain ⟨next, hnext, hrest⟩ := bind_eq_ok.mp h
      rw [ih hrest hother, prepareFact_other hnext hother]

/-- The loop over one family, from a table that need not be empty. -/
theorem foldlM_prepareFact_spec : ∀ {identities identities' : WireIdentities},
    facts.foldlM (prepareFact family) identities = .ok identities' →
      (facts.filterMap (compactKey family)).Nodup ∧
      (∀ fact ∈ facts, ∀ key, compactKey family fact = some key →
        (identities family)[key]? = none ∧
          ∃ identity, Defines identities' family fact key identity) ∧
      ∀ key identity, (identities' family)[key]? = some identity ↔
        (identities family)[key]? = some identity ∨
          ∃ fact ∈ facts, Defines identities' family fact key identity := by
  induction facts with
  | nil =>
      intro identities identities' h
      cases h
      simp
  | cons fact facts ih =>
      intro identities identities' h
      have hframe {other : WireFamily} (hother : other.rank < family.rank) :
          identities other = identities' other :=
        (foldlM_prepareFact_other h (by rintro rfl; exact lt_irrefl _ hother)).symm
      rw [List.foldlM_cons] at h
      obtain ⟨next, hnext, hrest⟩ := bind_eq_ok.mp h
      obtain ⟨hnodup, hdefined, htable⟩ := ih hrest
      obtain ⟨key, hkey, ⟨hcompact, rfl⟩ | ⟨identity, hdefines, hfresh, rfl⟩⟩ :=
        prepareFact_ok_iff.mp hnext
      · have hnone : compactKey family fact = none := by
          simp [compactKey_of_string family hkey, hcompact]
        have hundefined (key identity : String) :
            ¬ Defines identities' family fact key identity := fun hdefines => by
          simpa [hnone] using hdefines.compact
        refine ⟨by rwa [List.filterMap_cons_none hnone], ?_, ?_⟩
        · simpa [hnone] using hdefined
        · simpa [hundefined] using htable
      · have hfact := hdefines.congr fun _ hother => hframe hother
        have hsome (other : String) :
            (Function.update identities family ((identities family).insert key identity)
              family)[other]? = if key = other then some identity else (identities family)[other]? :=
          by rw [Function.update_self, Table.getElem?_insert]
        have hunread : key ∉ facts.filterMap (compactKey family) := by
          intro hmem
          obtain ⟨other, hother, hsame⟩ := List.mem_filterMap.mp hmem
          simpa [hsome] using (hdefined other hother key hsame).1
        refine ⟨?_, ?_, ?_⟩
        · rw [List.filterMap_cons_some hdefines.compact]
          exact List.nodup_cons.mpr ⟨hunread, hnodup⟩
        · intro other hother key' hkey'
          rcases List.mem_cons.mp hother with rfl | hother
          · obtain rfl := Option.some.inj (hdefines.compact.symm.trans hkey')
            exact ⟨hfresh, identity, hfact⟩
          · obtain ⟨hnone, hidentity⟩ := hdefined other hother key' hkey'
            rw [hsome] at hnone
            split at hnone
            · cases hnone
            · exact ⟨hnone, hidentity⟩
        · intro key' identity'
          rw [htable, hsome, List.exists_mem_cons_iff, ← or_assoc]
          refine or_congr_left ?_
          by_cases hsame : key = key'
          · subst hsame
            rw [if_pos rfl, hfresh, Option.some.injEq]
            constructor
            · rintro rfl
              exact .inr hfact
            · rintro (hnone | hother)
              · cases hnone
              · exact (hfact.unique hother).2
          · rw [if_neg hsame]
            exact ⟨.inl, fun h => h.resolve_right fun hother => hsame (hfact.unique hother).1⟩

/-- The loop over one family returns on consistent facts. -/
theorem foldlM_prepareFact_ok : ∀ {identities : WireIdentities},
    (∀ fact ∈ facts, ∃ key, fact.string "key" = .ok key ∧ (isCompact family key = true →
      (identities family)[key]? = none ∧
        ∃ identity, Defines identities family fact key identity)) →
    (facts.filterMap (compactKey family)).Nodup →
      ∃ identities', facts.foldlM (prepareFact family) identities = .ok identities' := by
  induction facts with
  | nil => exact fun _ _ => ⟨_, rfl⟩
  | cons fact facts ih =>
      intro identities hfacts hnodup
      obtain ⟨key, hkey, hcompact⟩ := hfacts fact List.mem_cons_self
      have hrest := fun other hother => hfacts other (List.mem_cons_of_mem _ hother)
      cases hread : isCompact family key with
      | false =>
          have hnone : compactKey family fact = none := by
            simp [compactKey_of_string family hkey, hread]
          rw [List.filterMap_cons_none hnone] at hnodup
          obtain ⟨identities', hok⟩ := ih hrest hnodup
          refine ⟨identities', ?_⟩
          rw [List.foldlM_cons, prepareFact_ok_iff.mpr ⟨key, hkey, .inl ⟨hread, rfl⟩⟩]
          exact hok
      | true =>
          obtain ⟨hfresh, identity, hdefines⟩ := hcompact hread
          rw [List.filterMap_cons_some hdefines.compact] at hnodup
          obtain ⟨hunread, hnodup⟩ := List.nodup_cons.mp hnodup
          have hframe {other : WireFamily} (hother : other.rank < family.rank) :
              identities other = Function.update identities family
                ((identities family).insert key identity) other :=
            (Function.update_of_ne (by rintro rfl; exact lt_irrefl _ hother) _ _).symm
          obtain ⟨identities', hok⟩ := ih (fun other hother => by
            obtain ⟨key', hkey', hcompact'⟩ := hrest other hother
            refine ⟨key', hkey', fun hread' => ?_⟩
            obtain ⟨hfresh', identity', hdefines'⟩ := hcompact' hread'
            refine ⟨?_, identity', hdefines'.congr fun _ h => hframe h⟩
            have hne : key ≠ key' := by
              rintro rfl
              exact hunread (List.mem_filterMap.mpr ⟨other, hother, hdefines'.compact⟩)
            simpa [hne] using hfresh') hnodup
          refine ⟨identities', ?_⟩
          rw [List.foldlM_cons,
            prepareFact_ok_iff.mpr ⟨key, hkey, .inr ⟨identity, hdefines, hfresh, rfl⟩⟩]
          exact hok

end Family

/-! ## All families -/

section Families

variable {facts : List Record}

theorem foldlM_prepareFamily_other {families : List (String × WireFamily)} :
    ∀ {identities identities' : WireIdentities},
      families.foldlM (prepareFamily facts) identities = .ok identities' →
        ∀ {other : WireFamily}, other ∉ families.map Prod.snd →
          identities' other = identities other := by
  induction families with
  | nil =>
      intro identities identities' h other _
      cases h
      rfl
  | cons definition families ih =>
      intro identities identities' h other hother
      rw [List.foldlM_cons] at h
      obtain ⟨next, hnext, hrest⟩ := bind_eq_ok.mp h
      rw [List.map_cons, List.mem_cons, not_or] at hother
      rw [ih hrest hother.2, foldlM_prepareFact_other hnext hother.1]

/-- Every family ends with the table of its own facts. -/
theorem foldlM_prepareFamily_spec {families : List (String × WireFamily)}
    (hranks : families.Pairwise fun first second => first.2.rank < second.2.rank) :
    ∀ {identities identities' : WireIdentities},
      families.foldlM (prepareFamily facts) identities = .ok identities' →
      (∀ definition ∈ families, identities definition.2 = ∅) →
        ∀ definition ∈ families,
          FamilyRead (factRecords facts definition.1) definition.2 identities' := by
  induction families with
  | nil => simp
  | cons first families ih =>
      intro identities identities' h hempty
      obtain ⟨hfirst, hranks⟩ := List.pairwise_cons.mp hranks
      rw [List.foldlM_cons] at h
      obtain ⟨next, hnext, hrest⟩ := bind_eq_ok.mp h
      have hunread {other : WireFamily} (hother : other.rank ≤ first.2.rank) :
          identities' other = next other :=
        foldlM_prepareFamily_other hrest fun hmem => by
          obtain ⟨definition, hdefinition, rfl⟩ := List.mem_map.mp hmem
          exact absurd (hfirst definition hdefinition) (Nat.not_lt.mpr hother)
      intro definition hdefinition
      rcases List.mem_cons.mp hdefinition with rfl | hdefinition
      · obtain ⟨hnodup, hdefined, htable⟩ := foldlM_prepareFact_spec hnext
        have hcongr {fact : Record} {key identity : String}
            (h : Defines next definition.2 fact key identity) :
            Defines identities' definition.2 fact key identity :=
          h.congr fun other hother => (hunread hother.le).symm
        have hcongr' {fact : Record} {key identity : String}
            (h : Defines identities' definition.2 fact key identity) :
            Defines next definition.2 fact key identity :=
          h.congr fun other hother => hunread hother.le
        refine ⟨hnodup, fun fact hfact key hkey => ?_, fun key identity => ?_⟩
        · obtain ⟨-, identity, hdefines⟩ := hdefined fact hfact key hkey
          exact ⟨identity, hcongr hdefines⟩
        · rw [hunread le_rfl, htable, hempty definition List.mem_cons_self]
          simp only [Std.ExtTreeMap.getElem?_empty, reduceCtorEq, false_or]
          exact exists_congr fun fact => and_congr_right fun _ => ⟨hcongr, hcongr'⟩
      · refine ih hranks hrest (fun other hother => ?_) definition hdefinition
        rw [foldlM_prepareFact_other hnext, hempty other (List.mem_cons_of_mem _ hother)]
        intro hsame
        have := hfirst other hother
        rw [hsame] at this
        exact lt_irrefl _ this

omit [NativeLibrary] in
theorem definitionFamilies_ranks :
    definitionFamilies.Pairwise fun first second => first.2.rank < second.2.rank := by
  decide

theorem prepareWireKeys_spec {identities : WireIdentities}
    (h : prepareWireKeys facts = .ok identities) :
    ∀ definition ∈ definitionFamilies,
      FamilyRead (factRecords facts definition.1) definition.2 identities :=
  foldlM_prepareFamily_spec definitionFamilies_ranks h fun _ _ => rfl

end Families

/-! ## Accepted streams -/

/-- `fact` refers to `key` of a family. -/
inductive Refers (fact : Record) : WireFamily → String → Prop where
  | field {name : String} {family : WireFamily} {key : String} :
      (name, family) ∈ wireReferenceFields → fact[name]? = some (.text key) →
        Refers fact family key
  | parameter {keys : List String} {key : String} :
      Record.textsOf (fact.get "parameter_location_keys") = some keys → key ∈ keys →
        Refers fact .location key

/-- What the compact keys of an accepted stream satisfy. -/
structure Consistent (facts : List Record) (identities : WireIdentities) : Prop where
  /-- A compact key is the digest of the long identity that only its own fact spells out. -/
  defined : ∀ definition ∈ definitionFamilies, ∀ fact ∈ factRecords facts definition.1,
    ∀ key, compactKey definition.2 fact = some key → ∃ identity,
      definedIdentity identities definition.2 fact = .ok identity ∧
      key = definition.2.letter ++ ":" ++ NativeLibrary.hexdigest (utf8 identity) ∧
      66 < (utf8 identity).length ∧
      (factRecords facts definition.1).filter
        (fun other => compactKey definition.2 other = some key) = [fact]
  referenced : ∀ fact ∈ facts, ∀ family key, Refers fact family key →
    isCompact family key = true → ∃ definition ∈ definitionFamilies, definition.2 = family ∧
      ∃ other ∈ factRecords facts definition.1, compactKey family other = some key

omit [NativeLibrary] in
/-- An entry with a tag of its own is the only one with that tag. -/
theorem filter_eq_singleton {α β : Type} [DecidableEq β] {tag : α → Option β} {items : List α}
    (hnodup : (items.filterMap tag).Nodup) {item : α} (hitem : item ∈ items) {value : β}
    (htag : tag item = some value) :
    items.filter (fun other => tag other = some value) = [item] := by
  obtain ⟨before, after, rfl⟩ := List.append_of_mem hitem
  rw [List.filterMap_append, List.filterMap_cons_some htag, List.nodup_middle, List.nodup_cons,
    ← List.filterMap_append] at hnodup
  have hothers (other : α) (hother : other ∈ before ++ after) : tag other ≠ some value :=
    fun hsame => hnodup.1 (List.mem_filterMap.mpr ⟨other, hother, hsame⟩)
  have hnone (part : List α) (hpart : ∀ other ∈ part, other ∈ before ++ after) :
      part.filter (fun other => tag other = some value) = [] := by
    simpa [List.filter_eq_nil_iff] using fun other hother => hothers other (hpart other hother)
  rw [List.filter_append, List.filter_cons_of_pos (by simpa using htag),
    hnone before fun _ h => List.mem_append_left _ h,
    hnone after fun _ h => List.mem_append_right _ h, List.nil_append]

section Accepted

variable {identities : WireIdentities} {fact restored : Record} {facts results : List Record}

omit [NativeLibrary] in
/-- The restored fields were all restored from their original values. -/
theorem wireReference_of_foldlM {fields : List (String × WireFamily)}
    (hnames : (fields.map Prod.fst).Nodup) : ∀ {fact restored : Record},
    fields.foldlM (restoreField identities) fact = .ok restored →
      ∀ field ∈ fields, ∀ value, fact[field.1]? = some value →
        ∃ reference, wireReference identities value field.2 = .ok reference := by
  induction fields with
  | nil => simp
  | cons first fields ih =>
      intro fact restored h field hfield value hvalue
      rw [List.map_cons, List.nodup_cons] at hnames
      rw [List.foldlM_cons] at h
      obtain ⟨next, hnext, hrest⟩ := bind_eq_ok.mp h
      unfold restoreField at hnext
      rcases List.mem_cons.mp hfield with rfl | hfield
      · rw [hvalue] at hnext
        obtain ⟨reference, hreference, -⟩ := bind_eq_ok.mp hnext
        exact ⟨reference, hreference⟩
      · refine ih hnames.2 hrest field hfield value ?_
        have hne : first.1 ≠ field.1 := fun h =>
          hnames.1 (h ▸ List.mem_map.mpr ⟨field, hfield, rfl⟩)
        split at hnext
        · cases hnext
          exact hvalue
        · obtain ⟨reference, -, hinsert⟩ := bind_eq_ok.mp hnext
          cases hinsert
          simpa [hne] using hvalue

omit [NativeLibrary] in
theorem getElem?_of_foldlM {fields : List (String × WireFamily)} {name : String}
    (hname : name ∉ fields.map Prod.fst) : ∀ {fact restored : Record},
    fields.foldlM (restoreField identities) fact = .ok restored →
      restored[name]? = fact[name]? := by
  induction fields with
  | nil =>
      intro fact restored h
      cases h
      rfl
  | cons first fields ih =>
      intro fact restored h
      rw [List.map_cons, List.mem_cons, not_or] at hname
      rw [List.foldlM_cons] at h
      obtain ⟨next, hnext, hrest⟩ := bind_eq_ok.mp h
      rw [ih hname.2 hrest]
      unfold restoreField at hnext
      split at hnext
      · cases hnext
        rfl
      · obtain ⟨reference, -, hinsert⟩ := bind_eq_ok.mp hnext
        cases hinsert
        simp [Ne.symm hname.1]

omit [NativeLibrary] in
theorem wireReferenceFields_nodup : (wireReferenceFields.map Prod.fst).Nodup := by decide

omit [NativeLibrary] in
theorem getElem?_of_wireReference {key : String} {family : WireFamily} {reference : Json}
    (h : wireReference identities (.text key) family = .ok reference)
    (hcompact : isCompact family key = true) :
    ∃ identity, (identities family)[key]? = some identity := by
  simp only [wireReference, hcompact, ↓reduceIte] at h
  cases hkey : (identities family)[key]? with
  | none => simp [hkey, protocolError] at h
  | some identity => exact ⟨identity, rfl⟩

/-- The references of a restored fact have identities. -/
theorem identity_of_refers (h : restoreWireFact identities fact = .ok restored)
    {family : WireFamily} {key : String} (hrefers : Refers fact family key)
    (hcompact : isCompact family key = true) :
    ∃ identity, (identities family)[key]? = some identity := by
  obtain ⟨references, hreferences, -⟩ := bind_eq_ok.mp h
  obtain ⟨fields, hfields, hparameters⟩ := bind_eq_ok.mp hreferences
  cases hrefers with
  | field hname hvalue =>
      obtain ⟨reference, hreference⟩ :=
        wireReference_of_foldlM wireReferenceFields_nodup hfields _ hname _ hvalue
      exact getElem?_of_wireReference hreference hcompact
  | @parameter keys _ hkeys hkey =>
      have hname : fields["parameter_location_keys"]? = fact["parameter_location_keys"]? :=
        getElem?_of_foldlM (by decide) hfields
      cases hvalue : fact["parameter_location_keys"]? with
      | none => simp [Record.get, hvalue, Record.textsOf] at hkeys
      | some value =>
          simp only [hname, hvalue, Record.stringList, hkeys] at hparameters
          obtain ⟨texts, htexts, hreferences⟩ := bind_eq_ok.mp hparameters
          cases htexts
          obtain ⟨_, hmap, -⟩ := bind_eq_ok.mp hreferences
          obtain ⟨reference, hreference⟩ := exists_result_of_mem (mapM_ok_iff.mp hmap) hkey
          exact getElem?_of_wireReference hreference hcompact

omit [NativeLibrary] in
theorem definition_of_reference : ∀ field ∈ wireReferenceFields,
    ∃ definition ∈ definitionFamilies, definition.2 = field.2 := by decide

omit [NativeLibrary] in
theorem exists_definition_of_refers {family : WireFamily} {key : String}
    (hrefers : Refers fact family key) :
    ∃ definition ∈ definitionFamilies, definition.2 = family := by
  cases hrefers with
  | field hname => exact definition_of_reference _ hname
  | parameter => exact ⟨("memory_location_v1", .location), by decide, rfl⟩

/-- A stream is only accepted when its compact keys are consistent. -/
theorem consistent_of_readWireFacts (h : readWireFacts facts = .ok results) :
    ∃ identities, prepareWireKeys facts = .ok identities ∧ Consistent facts identities := by
  obtain ⟨identities, hprepared, hrestored⟩ := bind_eq_ok.mp h
  refine ⟨identities, hprepared, fun definition hdefinition fact hfact key hkey => ?_,
    fun fact hfact family key hrefers hcompact => ?_⟩
  · have hread := prepareWireKeys_spec hprepared definition hdefinition
    obtain ⟨identity, hdefines⟩ := hread.defined fact hfact key hkey
    refine ⟨identity, hdefines.reconstructed, ?_, hdefines.long,
      filter_eq_singleton hread.nodup hfact hkey⟩
    have hdigest := hdefines.digest
    rwa [wireKey, if_neg (Nat.not_le.mpr hdefines.long), eq_comm] at hdigest
  · obtain ⟨restored, hfact⟩ := exists_result_of_mem (mapM_ok_iff.mp hrestored) hfact
    obtain ⟨identity, hidentity⟩ := identity_of_refers hfact hrefers hcompact
    obtain ⟨definition, hdefinition, rfl⟩ := exists_definition_of_refers hrefers
    obtain ⟨other, hother, hdefines⟩ :=
      ((prepareWireKeys_spec hprepared definition hdefinition).table key identity).mp hidentity
    exact ⟨definition, hdefinition, rfl, other, hother, hdefines.compact⟩

end Accepted

end CppContextEngine.Ingestion
