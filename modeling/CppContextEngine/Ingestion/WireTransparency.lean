import CppContextEngine.Analyzer.WireFacts
import CppContextEngine.Ingestion.WireIdentities

/-!
# Compact keys are transparent

The analyzer shortens the keys of what it emits and the ingestion restores
them.  A reference is restored once its definition has been read, so it is the
definitions of a stream that have to be complete, in whatever order they come.
-/

namespace CppContextEngine.Ingestion

open CppContextEngine.Foundation CppContextEngine.Analyzer

/-! ## The two tables -/

theorem references_eq : references = wireReferenceFields := rfl

theorem ownFamily_eq (kind : String) : ownFamily kind = wireFactKeys.lookup kind := by
  unfold ownFamily
  split
  case h_9 =>
    symm
    rw [List.lookup_eq_none_iff]
    simp_all [wireFactKeys]
  all_goals rfl

variable [NativeLibrary]

theorem wireKey_eq (key : String) (family : WireFamily) :
    Analyzer.wireKey key family = wireKey key family := rfl

/-! ## One record -/

/-- A reference to `key` is restored. -/
def Restorable (identities : WireIdentities) (family : WireFamily) (key : String) : Prop :=
  wireReferenceText identities (wireKey key family) family = .ok key

theorem foldl_projectReference_insert {fields : List (String × WireFamily)} {name : String}
    (hname : name ∉ fields.map Prod.fst) (value : Json) : ∀ fact : Record,
    fields.foldl projectReference (fact.insert name value) =
      (fields.foldl projectReference fact).insert name value := by
  induction fields with
  | nil => exact fun _ => rfl
  | cons field fields ih =>
      intro fact
      rw [List.map_cons, List.mem_cons, not_or] at hname
      have hstep : projectReference (fact.insert name value) field =
          (projectReference fact field).insert name value := by
        unfold projectReference
        rw [Table.getElem?_insert, if_neg hname.1]
        split
        · refine Table.ext_getElem? fun other => ?_
          simp only [Table.getElem?_insert]
          split <;> split <;> simp_all
        · rfl
      rw [List.foldl_cons, List.foldl_cons, hstep, ih hname.2]

theorem getElem?_foldl_projectReference {fields : List (String × WireFamily)} {name : String}
    (hname : name ∉ fields.map Prod.fst) : ∀ fact : Record,
    (fields.foldl projectReference fact)[name]? = fact[name]? := by
  induction fields with
  | nil => exact fun _ => rfl
  | cons field fields ih =>
      intro fact
      rw [List.map_cons, List.mem_cons, not_or] at hname
      rw [List.foldl_cons, ih hname.2]
      unfold projectReference
      split
      · simp [Ne.symm hname.1]
      · rfl

omit [NativeLibrary] in
theorem insert_self {fact : Record} {name : String} {value : Json}
    (h : fact[name]? = some value) : fact.insert name value = fact := by
  refine Table.ext_getElem? fun other => ?_
  rw [Table.getElem?_insert]
  split
  · simp_all
  · rfl

omit [NativeLibrary] in
theorem textsOf_texts (texts : List String) :
    Record.textsOf (.list (texts.map Json.text)) = some texts := by
  unfold Record.textsOf
  simp only [option_mapM_iff, List.forall₂_map_left_iff, List.forall₂_same, implies_true]

section Record

variable {identities : WireIdentities} {fact : Record}

/-- The restoration of references undoes their projection. -/
theorem restoreField_projectReference {fields : List (String × WireFamily)}
    (hnames : (fields.map Prod.fst).Nodup) : ∀ {fact : Record},
    (∀ field ∈ fields, ∀ value, fact[field.1]? = some value →
      value = .null ∨ ∃ key, value = .text key ∧ Restorable identities field.2 key) →
    fields.foldlM (restoreField identities) (fields.foldl projectReference fact) = .ok fact := by
  induction fields with
  | nil => exact fun _ => rfl
  | cons field fields ih =>
      intro fact hfact
      rw [List.map_cons, List.nodup_cons] at hnames
      have hrest := ih hnames.2 fun other hother => hfact other (List.mem_cons_of_mem _ hother)
      rw [List.foldl_cons, List.foldlM_cons]
      cases hvalue : fact[field.1]? with
      | none =>
          have hproject : projectReference fact field = fact := by
            simp [projectReference, hvalue]
          have hrestore : restoreField identities (fields.foldl projectReference fact) field =
              .ok (fields.foldl projectReference fact) := by
            simp [restoreField, getElem?_foldl_projectReference hnames.1, hvalue]
          rw [hproject, hrestore]
          exact hrest
      | some value =>
          rcases hfact field List.mem_cons_self value hvalue with rfl | ⟨key, rfl, hkey⟩
          · have hproject : projectReference fact field = fact := by
              simp [projectReference, hvalue]
            have hkept : (fields.foldl projectReference fact)[field.1]? = some .null := by
              rw [getElem?_foldl_projectReference hnames.1, hvalue]
            have hrestore : restoreField identities (fields.foldl projectReference fact) field =
                .ok (fields.foldl projectReference fact) := by
              simp only [restoreField, hkept, wireReference]
              exact congrArg Except.ok (insert_self hkept)
            rw [hproject, hrestore]
            exact hrest
          · have hproject : projectReference fact field =
                fact.insert field.1 (.text (wireKey key field.2)) := by
              simp only [projectReference, hvalue]
              rfl
            have hrestore : restoreField identities ((fields.foldl projectReference fact).insert
                field.1 (.text (wireKey key field.2))) field =
                .ok (fields.foldl projectReference fact) := by
              unfold Restorable at hkey
              simp only [restoreField, Table.getElem?_insert, ↓reduceIte, wireReference_text, hkey]
              refine congrArg Except.ok (Table.ext_getElem? fun other => ?_)
              simp only [Table.getElem?_insert]
              split
              · subst_vars
                rw [getElem?_foldl_projectReference hnames.1, hvalue]
              · rfl
            rw [hproject, foldl_projectReference_insert hnames.1, hrestore]
            exact hrest

theorem restoreReferences_project
    (hfields : ∀ field ∈ wireReferenceFields, ∀ value, fact[field.1]? = some value →
      value = .null ∨ ∃ key, value = .text key ∧ Restorable identities field.2 key)
    (hlocations : fact["parameter_location_keys"]? = none ∨ ∃ keys : List String,
      fact["parameter_location_keys"]? = some (.list (keys.map .text)) ∧
        ∀ key ∈ keys, Restorable identities .location key) :
    restoreReferences identities (projectLocations (references.foldl projectReference fact)) =
      .ok fact := by
  have hunnamed : "parameter_location_keys" ∉ references.map Prod.fst := by decide
  have hkept : (references.foldl projectReference fact)["parameter_location_keys"]? =
      fact["parameter_location_keys"]? := getElem?_foldl_projectReference hunnamed fact
  rcases hlocations with hnone | ⟨keys, hkeys, hrestorable⟩
  · have hproject : projectLocations (references.foldl projectReference fact) =
        references.foldl projectReference fact := by
      simp [projectLocations, hkept, hnone]
    rw [hproject, restoreReferences, references_eq,
      restoreField_projectReference wireReferenceFields_nodup hfields]
    simp [bind, Except.bind, hnone, pure, Except.pure]
  · have hproject : projectLocations (references.foldl projectReference fact) =
        references.foldl projectReference (fact.insert "parameter_location_keys"
          (.list (keys.map fun key => .text (wireKey key .location)))) := by
      rw [foldl_projectReference_insert hunnamed]
      simp only [projectLocations, hkept, hkeys, List.map_map]
      rfl
    have hnamed {field : String × WireFamily} (hfield : field ∈ wireReferenceFields) :
        "parameter_location_keys" ≠ field.1 := by
      rintro h
      exact hunnamed (h ▸ List.mem_map_of_mem hfield)
    have hrestored : wireReferenceFields.foldlM (restoreField identities)
        (references.foldl projectReference (fact.insert "parameter_location_keys"
          (.list (keys.map fun key => .text (wireKey key .location))))) =
        .ok (fact.insert "parameter_location_keys"
          (.list (keys.map fun key => .text (wireKey key .location)))) := by
      refine restoreField_projectReference wireReferenceFields_nodup ?_
      intro field hfield value hvalue
      rw [Table.getElem?_insert, if_neg (hnamed hfield)] at hvalue
      exact hfields field hfield value hvalue
    have hread : (references.foldl projectReference (fact.insert "parameter_location_keys"
        (.list (keys.map fun key => .text (wireKey key .location))))).stringList
          "parameter_location_keys" = .ok (keys.map fun key => wireKey key .location) := by
      have htexts := textsOf_texts (keys.map fun key => wireKey key .location)
      rw [List.map_map, Function.comp_def] at htexts
      rw [Record.stringList, Record.get, getElem?_foldl_projectReference hunnamed,
        Table.getElem?_insert, if_pos rfl, Option.getD_some]
      rw [htexts]
    have hmapped : (keys.map fun key => wireKey key .location).mapM
        (fun key => wireReference identities (.text key) .location) =
          .ok (keys.map Json.text) := by
      rw [mapM_ok_iff, List.forall₂_map_left_iff, List.forall₂_map_right_iff, List.forall₂_same]
      intro key hkey
      rw [wireReference_text, hrestorable key hkey]
      rfl
    rw [hproject, restoreReferences, hrestored]
    simp only [bind, Except.bind, Table.getElem?_insert, ↓reduceIte, hread, hmapped]
    refine congrArg Except.ok (Table.ext_getElem? fun other => ?_)
    simp only [Table.getElem?_insert]
    split
    · subst_vars
      exact hkeys.symm
    · rfl

/-- What a fact's own compact key is restored from. -/
def OwnKeyRestorable (identities : WireIdentities) (fact : Record) : Prop :=
  ∀ kind family key, fact["fact"]? = some (.text kind) → ownFamily kind = some family →
    fact["key"]? = some (.text key) →
      isCompact family key = false ∧ (66 < (utf8 key).length →
        restoredIdentity identities (projectKey fact) family (wireKey key family) = .ok key)

omit [NativeLibrary] in
theorem get_eq_text {name text : String} :
    fact.get name = .text text ↔ fact[name]? = some (.text text) := by
  unfold Record.get
  cases fact[name]? <;> simp

theorem getElem?_projectLocations {name : String}
    (hname : name ≠ "parameter_location_keys") (fact : Record) :
    (projectLocations fact)[name]? = fact[name]? := by
  unfold projectLocations
  split
  · simp [Ne.symm hname]
  · rfl

theorem getElem?_projectKey {name : String} (hkey : name ≠ "key")
    (hidentity : name ≠ "identity_key") (fact : Record) :
    (projectKey fact)[name]? = fact[name]? := by
  unfold projectKey
  split
  · split
    · simp only [Table.getElem?_insert, if_neg (Ne.symm hkey)]
      split
      · simp [Ne.symm hidentity]
      · rfl
    · rfl
  · rfl

theorem isCompact_wireKey {family : WireFamily} {key : String} (hlong : 66 < (utf8 key).length) :
    isCompact family (wireKey key family) = true := by
  rw [wireKey, if_neg (Nat.not_le.mpr hlong)]
  simp [isCompact]

/-- A fact is restored from its projection. -/
theorem restoreWireFact_project
    (hfields : ∀ field ∈ wireReferenceFields, ∀ value, fact[field.1]? = some value →
      value = .null ∨ ∃ key, value = .text key ∧ Restorable identities field.2 key)
    (hlocations : fact["parameter_location_keys"]? = none ∨ ∃ keys : List String,
      fact["parameter_location_keys"]? = some (.list (keys.map .text)) ∧
        ∀ key ∈ keys, Restorable identities .location key)
    (hidentity : fact["identity_key"]? = none) (hkey : OwnKeyRestorable identities fact) :
    restoreWireFact identities (projectWireKeys fact) = .ok fact := by
  have hproject {name : String} (hname : name ≠ "key" ∧ name ≠ "identity_key") :
      (projectKey fact)[name]? = fact[name]? := getElem?_projectKey hname.1 hname.2 fact
  have hreferences : restoreReferences identities (projectWireKeys fact) =
      .ok (projectKey fact) := by
    refine restoreReferences_project (fun field hfield value hvalue => ?_) ?_
    · have hnames : ∀ field ∈ wireReferenceFields, field.1 ≠ "key" ∧ field.1 ≠ "identity_key" := by
        decide
      exact hfields field hfield value (by rw [← hproject (hnames field hfield), hvalue])
    · rwa [hproject (by decide)]
  have hread {name : String} (hname : name ∉ references.map Prod.fst)
      (hlocation : name ≠ "parameter_location_keys") :
      (projectWireKeys fact)[name]? = (projectKey fact)[name]? := by
    rw [projectWireKeys, getElem?_projectLocations hlocation, getElem?_foldl_projectReference hname]
  suffices hrestored : ∃ restored, restoreKey identities (projectWireKeys fact) (projectKey fact) =
      .ok restored ∧ restored.erase "identity_key" = fact by
    obtain ⟨restored, hrestored, herased⟩ := hrestored
    rw [restoreWireFact, hreferences]
    simp only [bind, Except.bind, hrestored, pure, Except.pure, herased]
  have hfact : (projectWireKeys fact)["fact"]? = fact["fact"]? :=
    (hread (by decide) (by decide)).trans (hproject (by decide))
  have herase (base : Record) (hbase : ∀ name, name ≠ "identity_key" → base[name]? = fact[name]?) :
      base.erase "identity_key" = fact := by
    refine Table.ext_getElem? fun name => ?_
    rw [Std.ExtTreeMap.getElem?_erase]
    simp only [Std.compare_eq_iff_eq]
    split
    · subst_vars
      exact hidentity.symm
    · exact hbase name (Ne.symm ‹_›)
  by_cases hown : ∃ kind family key, fact["fact"]? = some (.text kind) ∧
      ownFamily kind = some family ∧ fact["key"]? = some (.text key)
  · obtain ⟨kind, family, key, hkind, hfamily, hvalue⟩ := hown
    obtain ⟨hplain, hlong⟩ := hkey kind family key hkind hfamily hvalue
    have hprojected : (projectWireKeys fact)["key"]? = some (.text (wireKey key family)) := by
      rw [hread (by decide) (by decide)]
      simp [projectKey, hkind, hvalue, hfamily, wireKey_eq]
    have hrestore : restoreKey identities (projectWireKeys fact) (projectKey fact) =
        if isCompact family (wireKey key family) then do
          let identity ←
            restoredIdentity identities (projectKey fact) family (wireKey key family)
          throwIf ((family = .evidence ∨ family = .effect) ∧
              wireKey identity family ≠ wireKey key family)
            (IngestError.protocol "analyzer compact fact identity is inconsistent")
          return (projectKey fact).insert "key" (.text identity)
        else .ok (projectKey fact) := by
      simp [restoreKey, Record.get, hfact, hkind, hprojected, ← ownFamily_eq, hfamily]
    rw [hrestore]
    by_cases hsize : 66 < (utf8 key).length
    · rw [if_pos (isCompact_wireKey hsize), hlong hsize]
      refine ⟨(projectKey fact).insert "key" (.text key), by simp [bind, Except.bind, throwIf]; rfl,
        herase _ fun name hname => ?_⟩
      rw [Table.getElem?_insert]
      split
      · subst_vars
        exact hvalue.symm
      · exact hproject ⟨Ne.symm ‹_›, hname⟩
    · have hshort : wireKey key family = key := if_pos (Nat.not_lt.mp hsize)
      rw [hshort, if_neg (by simp [hplain])]
      refine ⟨projectKey fact, rfl, herase _ fun name hname => ?_⟩
      by_cases hsame : name = "key"
      · subst hsame
        rw [← hread (by decide) (by decide), hprojected, hshort, hvalue]
      · exact hproject ⟨hsame, hname⟩
  · have hsame : projectKey fact = fact := by
      unfold projectKey
      split
      · rename_i kind key hkind hvalue
        cases hfamily : ownFamily kind with
        | none => rfl
        | some family => exact absurd ⟨kind, family, key, hkind, hfamily, hvalue⟩ hown
      · rfl
    have hvalue : (projectWireKeys fact)["key"]? = fact["key"]? := by
      rw [hread (by decide) (by decide), hsame]
    have hrestore : restoreKey identities (projectWireKeys fact) fact = .ok fact := by
      unfold restoreKey
      split
      · rename_i kind key hkind hkey
        rw [get_eq_text, hfact] at hkind
        rw [get_eq_text, hvalue] at hkey
        rw [← ownFamily_eq]
        cases hfamily : ownFamily kind with
        | none => rfl
        | some family => exact absurd ⟨kind, family, key, hkind, hfamily, hkey⟩ hown
      · rfl
    exact ⟨fact, by rw [hsame, hrestore], herase fact fun _ _ => rfl⟩

end Record

/-! ## Emitted facts -/

omit [NativeLibrary] in
/-- The first two characters tell a compact key. -/
theorem isCompact_of_starts {start key : String} (h : ∃ rest, key = start ++ rest)
    (hlength : 2 ≤ start.toList.length) (family : WireFamily) :
    isCompact family key = isCompact family start := by
  obtain ⟨rest, rfl⟩ := h
  have hletter : ∃ letter, (family.letter ++ ":").toList = [letter, ':'] := by
    cases family <;> simp [WireFamily.letter]
  obtain ⟨letter, hletter⟩ := hletter
  rw [isCompact, isCompact, hletter, String.toList_append]
  cases hstart : start.toList with
  | nil => simp [hstart] at hlength
  | cons first tail =>
      cases tail with
      | nil => simp [hstart] at hlength
      | cons second tail => simp [List.isPrefixOf_cons_cons]

omit [NativeLibrary] in
theorem starts_append {start key : String} (h : ∃ rest, key = start ++ rest) (more : String) :
    ∃ rest, key ++ more = start ++ rest := by
  obtain ⟨rest, rfl⟩ := h
  exact ⟨rest ++ more, String.append_assoc⟩

omit [NativeLibrary] in
theorem identity_starts (identity : Identity) :
    (∃ rest, identity.key = "cfg:" ++ rest) ∨ ∃ rest, identity.key = "data-flow:" ++ rest := by
  cases identity with
  | graph f => exact .inl ⟨f, rfl⟩
  | block f => exact .inl (starts_append (starts_append ⟨f, rfl⟩ _) _)
  | element f | access f =>
      exact .inl (starts_append (starts_append (starts_append (starts_append ⟨f, rfl⟩ _) _) _) _)
  | analysis f => exact .inr ⟨graphKey f, rfl⟩
  | location f => exact .inr (starts_append (starts_append ⟨graphKey f, rfl⟩ _) _)

omit [NativeLibrary] in
theorem identity_not_compact (identity : Identity) (family : WireFamily) :
    isCompact family identity.key = false := by
  rcases identity_starts identity with hstarts | hstarts <;>
    rw [isCompact_of_starts hstarts (by decide)] <;> cases family <;> decide

omit [NativeLibrary] in
theorem evidence_not_compact (f relation source target : String) :
    isCompact .evidence (evidenceKey f relation source target) = false := by
  have hstarts : ∃ rest, evidenceKey f relation source target = "data-flow:" ++ rest :=
    starts_append (starts_append (starts_append (starts_append (starts_append (starts_append
      ⟨graphKey f, rfl⟩ _) _) _) _) _) _
  rw [isCompact_of_starts hstarts (by decide)]
  decide

omit [NativeLibrary] in
theorem effect_not_compact (f kind access : String) :
    isCompact .effect (effectKey f kind access) = false := by
  have hstarts : ∃ rest, effectKey f kind access = "function-summary:" ++ rest :=
    starts_append (starts_append (starts_append (starts_append ⟨graphKey f, rfl⟩ _) _) _) _
  rw [isCompact_of_starts hstarts (by decide)]
  decide

omit [NativeLibrary] in
theorem own_not_compact {fact : EmittedFact} {family : WireFamily} {key : String}
    (h : fact.own = some (family, key)) : isCompact family key = false := by
  cases fact with
  | accessEvidence | aliasEvidence =>
      cases h
      exact evidence_not_compact _ _ _ _
  | effect =>
      cases h
      exact effect_not_compact _ _ _
  | _ => cases h <;> exact identity_not_compact _ _

omit [NativeLibrary] in
theorem insert_comm {name name' : String} (h : name ≠ name') (base : Record) (value value' : Json) :
    (base.insert name value).insert name' value' = (base.insert name' value').insert name value := by
  refine Table.ext_getElem? fun other => ?_
  simp only [Table.getElem?_insert]
  split <;> split <;> simp_all

/-- It makes no difference that the sink adds the type after it has shortened the keys. -/
theorem line_eq (fact : EmittedFact) : FactSink.line fact = projectWireKeys fact.logical := by
  have hkey (base : Record) : projectKey (base.insert "type" (.text "fact")) =
      (projectKey base).insert "type" (.text "fact") := by
    simp only [projectKey, Table.getElem?_insert, String.reduceEq, ↓reduceIte]
    split
    · rename_i kind key hfact hvalue
      simp only [hfact, hvalue]
      cases ownFamily kind with
      | none => rfl
      | some family =>
          simp only
          split <;> simp only [insert_comm (show "type" ≠ "key" by decide),
            insert_comm (show "type" ≠ "identity_key" by decide)]
    · rfl
  have hlocations (base : Record) : projectLocations (base.insert "type" (.text "fact")) =
      (projectLocations base).insert "type" (.text "fact") := by
    simp only [projectLocations, Table.getElem?_insert, String.reduceEq, ↓reduceIte]
    split
    · rename_i locations hvalue
      simp only [hvalue]
      exact insert_comm (show "type" ≠ "parameter_location_keys" by decide) base _ _
    · rfl
  rw [FactSink.line, EmittedFact.logical, projectWireKeys, projectWireKeys, hkey,
    foldl_projectReference_insert (by decide), hlocations]

section Emitted

variable {identities : WireIdentities} {fact : EmittedFact}

/-- A field of a record whose own key is still compact. -/
theorem getElem?_of_mem {name : String} {value : Json} (h : (name, value) ∈ fact.entries)
    (hname : name ≠ "key" ∧ name ≠ "identity_key") :
    (projectKey fact.logical)[name]? = some value :=
  (getElem?_projectKey hname.1 hname.2 fact.logical).trans (EmittedFact.logical_of_mem h)

theorem string_of_mem {name value : String} (h : (name, .text value) ∈ fact.entries)
    (hname : name ≠ "key" ∧ name ≠ "identity_key") (hvalue : value ≠ "") :
    (projectKey fact.logical).string name = .ok value := by
  simp only [Record.string, Record.get, getElem?_of_mem h hname, Option.getD_some, if_neg hvalue]

omit [NativeLibrary] in
theorem identity_key_ne_empty (identity : Identity) : identity.key ≠ "" := by
  cases identity <;> simp [Identity.key, graphKey, blockKey, analysisKey]

omit [NativeLibrary] in
theorem firstTruthy_text {text : String} (h : text ≠ "") (second : Json) :
    firstTruthy (.text text) second = .text text := by
  unfold firstTruthy
  split <;> simp_all

/-- The identity of evidence is spelled out by its restored fields. -/
theorem restoredIdentity_evidence {f relation source target key : String}
    (hanalysis : ("analysis_key", .text (analysisKey f)) ∈ fact.entries)
    (hrelation : ("relation", .text relation) ∈ fact.entries) (hname : relation ≠ "")
    (hsource : firstTruthy ((projectKey fact.logical).get "source_access_key")
      ((projectKey fact.logical).get "source_location_key") = .text source)
    (htarget : firstTruthy ((projectKey fact.logical).get "target_access_key")
      ((projectKey fact.logical).get "target_location_key") = .text target) :
    restoredIdentity identities (projectKey fact.logical) .evidence key =
      .ok (evidenceKey f relation source target) := by
  simp only [restoredIdentity, hsource, htarget,
    string_of_mem hanalysis (by decide) (identity_key_ne_empty (.analysis f)),
    string_of_mem hrelation (by decide) hname]
  rfl

theorem get_of_reference {name : String} {identity : Identity}
    (h : (name, identity) ∈ fact.references) (hname : name ≠ "key" ∧ name ≠ "identity_key") :
    (projectKey fact.logical).get name = .text identity.key := by
  have hentry : (name, Json.text identity.key) ∈ fact.entries :=
    List.mem_append_right _ (List.mem_map.mpr ⟨(name, identity), h, rfl⟩)
  simp only [Record.get, getElem?_of_mem hentry hname, Option.getD_some]

theorem get_absent {name : String} (hwire : name ∈ wireNames)
    (hname : name ≠ "key" ∧ name ≠ "identity_key") (habsent : name ∉ fact.entries.map Prod.fst) :
    (projectKey fact.logical).get name = .null := by
  rw [Record.get, getElem?_projectKey hname.1 hname.2]
  cases hvalue : fact.logical[name]? with
  | none => rfl
  | some value =>
      exact absurd (List.mem_map_of_mem (EmittedFact.mem_of_logical hwire hvalue)) habsent

/-- The identity of a fact that defines something is what it defines. -/
theorem restoredIdentity_defined {identity : Identity} {record : Record}
    (h : Restorable identities identity.family identity.key) :
    restoredIdentity identities record identity.family (wireKey identity.key identity.family) =
      .ok identity.key := by
  unfold Restorable at h
  cases identity <;> simp only [Identity.family] at h ⊢ <;>
    simp only [restoredIdentity, wireReference_text, h] <;> rfl

/-- The fact's own key is restored. -/
theorem ownKeyRestorable (hdefined : ∀ identity, fact.defines = some identity →
    Restorable identities identity.family identity.key) :
    OwnKeyRestorable identities fact.logical := by
  intro kind family key hkind hfamily hkey
  have hown := EmittedFact.own_of_logical hkind hfamily hkey
  refine ⟨own_not_compact hown, fun _ => ?_⟩
  cases fact with
  | accessEvidence f relation source target details =>
      cases hown
      have hsource : ("source_access_key", Identity.access f source.1 source.2) ∈
          (EmittedFact.accessEvidence f relation source target details).references := by
        simp [EmittedFact.references]
      have htarget : ("target_access_key", Identity.access f target.1 target.2) ∈
          (EmittedFact.accessEvidence f relation source target details).references := by
        simp [EmittedFact.references]
      refine restoredIdentity_evidence ?_ ?_ (by cases relation <;> decide) ?_ ?_
      · simp [EmittedFact.entries, EmittedFact.references, Identity.key]
      · simp [EmittedFact.entries, EmittedFact.fields]
      · rw [get_of_reference hsource (by decide), firstTruthy_text (identity_key_ne_empty _)]
      · rw [get_of_reference htarget (by decide), firstTruthy_text (identity_key_ne_empty _)]
  | aliasEvidence f relation source target details =>
      cases hown
      have hentries : (EmittedFact.aliasEvidence f relation source target details).entries.map
          Prod.fst = ["fact", "key", "relation", "analysis_key", "graph_key",
            "source_location_key", "target_location_key"] := rfl
      have hsource : ("source_location_key", Identity.location f source) ∈
          (EmittedFact.aliasEvidence f relation source target details).references := by
        simp [EmittedFact.references]
      have htarget : ("target_location_key", Identity.location f target) ∈
          (EmittedFact.aliasEvidence f relation source target details).references := by
        simp [EmittedFact.references]
      refine restoredIdentity_evidence ?_ ?_ (by cases relation <;> decide) ?_ ?_
      · simp [EmittedFact.entries, EmittedFact.references, Identity.key]
      · simp [EmittedFact.entries, EmittedFact.fields]
      · rw [get_absent (by decide) (by decide) (by rw [hentries]; decide),
          get_of_reference hsource (by decide)]
        rfl
      · rw [get_absent (by decide) (by decide) (by rw [hentries]; decide),
          get_of_reference htarget (by decide)]
        rfl
  | effect f kind source name details =>
      cases hown
      have hsummary : ("summary_key", Json.text (summaryKey f)) ∈
          (EmittedFact.effect f kind source name details).entries := by
        simp [EmittedFact.entries, EmittedFact.fields]
      have hkind : ("kind", Json.text kind.name) ∈
          (EmittedFact.effect f kind source name details).entries := by
        simp [EmittedFact.entries, EmittedFact.fields]
      have haccess : ("source_access_key", Json.text (Identity.access f source.1 source.2).key) ∈
          (EmittedFact.effect f kind source name details).entries := by
        simp [EmittedFact.entries, EmittedFact.references]
      have hnamed : summaryKey f ≠ "" := fun hempty =>
        absurd (String.append_eq_empty_iff.mp hempty).1 (by decide)
      simp only [restoredIdentity, string_of_mem hsummary (by decide) hnamed,
        string_of_mem hkind (by decide) (by cases kind <;> decide),
        string_of_mem haccess (by decide) (identity_key_ne_empty _)]
      rfl
  | _ => cases hown <;> exact restoredIdentity_defined (hdefined _ rfl)

/-- A line is restored when what its fact refers to and defines can be. -/
theorem restoreWireFact_line
    (hreferences : ∀ identity ∈ fact.identities, Restorable identities identity.family identity.key)
    (hdefined : ∀ identity, fact.defines = some identity →
      Restorable identities identity.family identity.key) :
    restoreWireFact identities (FactSink.line fact) = .ok fact.logical := by
  rw [line_eq]
  refine restoreWireFact_project (fun field hfield value hvalue => ?_) ?_
    fact.identity_key_of_logical (ownKeyRestorable hdefined)
  · rcases EmittedFact.reference_of_logical hfield hvalue with hnull | ⟨identity, hmem, hfamily, hkey⟩
    · exact .inl hnull
    · exact .inr ⟨identity.key, hkey, hfamily ▸ hreferences identity hmem⟩
  · cases hvalue : fact.logical["parameter_location_keys"]? with
    | none => exact .inl rfl
    | some value =>
        refine .inr ⟨fact.parameterLocations.map Identity.key, ?_, ?_⟩
        · rw [EmittedFact.parameterLocations_of_logical hvalue, List.map_map]
          rfl
        · intro key hkey
          obtain ⟨identity, hidentity, rfl⟩ := List.mem_map.mp hkey
          rw [← fact.parameterLocations_family identity hidentity]
          exact hreferences identity (List.mem_append_right _ hidentity)

end Emitted

/-! ## Lines of a stream -/

section Line

variable {identities : WireIdentities} {fact : EmittedFact}

theorem getElem?_foldl_projectReference_of_mem {fields : List (String × WireFamily)}
    (hnames : (fields.map Prod.fst).Nodup) {field : String × WireFamily} (hfield : field ∈ fields)
    {key : String} : ∀ {base : Record}, base[field.1]? = some (.text key) →
      (fields.foldl projectReference base)[field.1]? = some (.text (wireKey key field.2)) := by
  induction fields with
  | nil => cases hfield
  | cons first fields ih =>
      intro base hvalue
      rw [List.map_cons, List.nodup_cons] at hnames
      rw [List.foldl_cons]
      rcases List.mem_cons.mp hfield with rfl | hfield
      · rw [getElem?_foldl_projectReference hnames.1]
        simp [projectReference, hvalue, wireKey_eq]
      · refine ih hnames.2 hfield ?_
        have hne : first.1 ≠ field.1 := fun h => hnames.1 (h ▸ List.mem_map_of_mem hfield)
        unfold projectReference
        split
        · simp [hne, hvalue]
        · exact hvalue

/-- A field that holds no compact key stays as it is. -/
theorem line_of_mem {name : String} {value : Json} (h : (name, value) ∈ fact.entries)
    (hname : name ∉ "key" :: wireNames) : (FactSink.line fact)[name]? = some value := by
  rw [List.mem_cons, not_or, wireNames, List.mem_append, not_or] at hname
  simp only [List.mem_cons, List.not_mem_nil, or_false, not_or] at hname
  obtain ⟨hkey, hreferences, hlocations, hidentity⟩ := hname
  rw [line_eq, projectWireKeys, getElem?_projectLocations hlocations, references_eq,
    getElem?_foldl_projectReference hreferences]
  exact getElem?_of_mem h ⟨hkey, hidentity⟩

theorem line_of_reference {name : String} {identity : Identity}
    (h : (name, identity) ∈ fact.references) :
    (FactSink.line fact)[name]? = some (.text (wireKey identity.key identity.family)) := by
  have htyped := fact.references_typed _ h
  have hnames : ∀ field ∈ wireReferenceFields, field.1 ≠ "parameter_location_keys" ∧
      field.1 ≠ "key" ∧ field.1 ≠ "identity_key" := by decide
  obtain ⟨hlocations, hname⟩ := hnames _ htyped
  rw [line_eq, projectWireKeys, getElem?_projectLocations hlocations]
  exact getElem?_foldl_projectReference_of_mem wireReferenceFields_nodup htyped
    (getElem?_of_mem (List.mem_append_right _ (List.mem_map.mpr ⟨(name, identity), h, rfl⟩)) hname)

/-- A line's own key, and its identity where that is not spelled out otherwise. -/
theorem line_of_own {family : WireFamily} {key : String} (h : fact.own = some (family, key)) :
    (FactSink.line fact)["key"]? = some (.text (wireKey key family)) ∧
      (family = .location → 66 < (utf8 key).length →
        (FactSink.line fact)["identity_key"]? = some (.text key)) := by
  have hkind := EmittedFact.logical_of_mem fact.kind_mem
  have hkey := EmittedFact.logical_of_mem (EmittedFact.own_mem h)
  have hfamily : ownFamily fact.kind = some family := by
    rw [EmittedFact.ownFamily_kind, h]
    rfl
  have hread {name : String} (hname : name ∉ references.map Prod.fst)
      (hlocation : name ≠ "parameter_location_keys") :
      (FactSink.line fact)[name]? = (projectKey fact.logical)[name]? := by
    rw [line_eq, projectWireKeys, getElem?_projectLocations hlocation,
      getElem?_foldl_projectReference hname]
  constructor
  · rw [hread (by decide) (by decide)]
    simp [projectKey, hkind, hkey, hfamily, wireKey_eq]
  · rintro rfl hlong
    have hprojected : Analyzer.wireKey key .location ≠ key := by
      intro hsame
      have hcompact : isCompact .location (Analyzer.wireKey key .location) = true :=
        isCompact_wireKey hlong
      rw [hsame, own_not_compact h] at hcompact
      cases hcompact
    rw [hread (by decide) (by decide)]
    simp only [projectKey, hkind, hkey, hfamily]
    rw [if_pos ⟨trivial, hprojected⟩, Table.getElem?_insert, if_neg (by decide),
      Table.getElem?_insert, if_pos rfl]

omit [NativeLibrary] in
theorem string_of_getElem? {record : Record} {name value : String}
    (h : record[name]? = some (.text value)) (hvalue : value ≠ "") :
    record.string name = .ok value := by
  simp only [Record.string, Record.get, h, Option.getD_some, if_neg hvalue]

omit [NativeLibrary] in
theorem nonNegativeInteger_of_getElem? {record : Record} {name : String} {value : Nat}
    (h : record[name]? = some (.int value)) : record.nonNegativeInteger name = .ok value := by
  simp [Record.nonNegativeInteger, Record.get, h]

theorem wireKey_ne_empty (identity : Identity) :
    wireKey identity.key identity.family ≠ "" := by
  by_cases hlong : 66 < (utf8 identity.key).length
  · exact compact_ne_empty (isCompact_wireKey hlong)
  · rw [wireKey, if_pos (Nat.not_lt.mp hlong)]
    exact identity_key_ne_empty identity

theorem reference_of_line {name : String} {identity : Identity}
    (h : (name, identity) ∈ fact.references) :
    (FactSink.line fact).string name = .ok (wireKey identity.key identity.family) :=
  string_of_getElem? (line_of_reference h) (wireKey_ne_empty identity)

/-- An identity that is a restored reference and a number. -/
theorem bind_reference {β : Type} {name : String} {identity : Identity}
    (h : (name, identity) ∈ fact.references)
    (hrestored : Restorable identities identity.family identity.key)
    (next : String → Except IngestError β) :
    (do
      let key ← (FactSink.line fact).string name
      let reference ← wireReferenceText identities key identity.family
      next reference) = next identity.key := by
  rw [reference_of_line h]
  unfold Restorable at hrestored
  simp only [bind, Except.bind, hrestored]

/-- The fields of a definition's line spell out its identity. -/
theorem definedIdentity_line {identity : Identity} (hdefines : fact.defines = some identity)
    (hreferences : ∀ reference ∈ fact.references, reference.2.family.rank < identity.family.rank →
      Restorable identities reference.2.family reference.2.key)
    (hlong : 66 < (utf8 identity.key).length) :
    definedIdentity identities identity.family (FactSink.line fact) = .ok identity.key := by
  cases fact <;> cases hdefines
  case graph.refl f entry normalExit details =>
    have hname : f ≠ "" := by
      rintro rfl
      revert hlong
      decide
    have hfunction : ("function_key", Json.text f) ∈
        (EmittedFact.graph f entry normalExit details).entries := by
      simp [EmittedFact.entries, EmittedFact.fields]
    simp only [definedIdentity, Identity.family,
      string_of_getElem? (line_of_mem hfunction (by decide)) hname]
    rfl
  case block.refl f b details =>
    have hgraph : ("graph_key", Identity.graph f) ∈ (EmittedFact.block f b details).references := by
      simp [EmittedFact.references]
    have hindex : ("index", Json.int b) ∈ (EmittedFact.block f b details).entries := by
      simp [EmittedFact.entries, EmittedFact.fields]
    have hrestored := hreferences _ hgraph (by simp [Identity.family, WireFamily.rank])
    refine (bind_reference hgraph hrestored _).trans ?_
    rw [nonNegativeInteger_of_getElem? (line_of_mem hindex (by decide))]
    rfl
  case element.refl f b i details =>
    have hblock : ("block_key", Identity.block f b) ∈
        (EmittedFact.element f b i details).references := by simp [EmittedFact.references]
    have hindex : ("index", Json.int i) ∈ (EmittedFact.element f b i details).entries := by
      simp [EmittedFact.entries, EmittedFact.fields]
    have hrestored := hreferences _ hblock (by simp [Identity.family, WireFamily.rank])
    refine (bind_reference hblock hrestored _).trans ?_
    rw [nonNegativeInteger_of_getElem? (line_of_mem hindex (by decide))]
    rfl
  case analysis.refl f details =>
    have hgraph : ("graph_key", Identity.graph f) ∈ (EmittedFact.analysis f details).references :=
      by simp [EmittedFact.references]
    have hrestored := hreferences _ hgraph (by simp [Identity.family, WireFamily.rank])
    exact bind_reference hgraph hrestored _
  case location.refl f name base details =>
    have hown : (EmittedFact.location f name base details).own =
        some (.location, (Identity.location f name).key) := rfl
    exact string_of_getElem? ((line_of_own hown).2 rfl hlong)
      (identity_key_ne_empty (.location f name))
  case access.refl f b sequence element name details =>
    have hblock : ("block_key", Identity.block f b) ∈
        (EmittedFact.access f b sequence element name details).references := by
      simp [EmittedFact.references]
    have hsequence : ("sequence", Json.int sequence) ∈
        (EmittedFact.access f b sequence element name details).entries := by
      simp [EmittedFact.entries, EmittedFact.fields]
    have hrestored := hreferences _ hblock (by simp [Identity.family, WireFamily.rank])
    refine (bind_reference hblock hrestored _).trans ?_
    rw [nonNegativeInteger_of_getElem? (line_of_mem hsequence (by decide))]
    rfl

end Line

end CppContextEngine.Ingestion
