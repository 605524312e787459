import Mathlib.Algebra.Order.BigOperators.Group.List
import Mathlib.Data.List.ReduceOption
import CppContextEngine.Ingestion.SymbolTextEmission

/-!
# Who puts a symbol together

The client can deliver whole symbols, or deliver the records as they come and
leave the fragments to the builder of the batch.  The builder reads the
fragments apart from the symbols and gets the same symbols.
-/

namespace CppContextEngine.Ingestion

open CppContextEngine.Foundation

/-! ## References of a symbol -/

section Spares

/-- The fields that restoring the references of a fact reads or writes. -/
def restoredFields : List String :=
  wireReferenceFields.map Prod.fst ++ ["parameter_location_keys", "identity_key"]

/-- A change of a record that leaves the references alone. -/
structure Spares (change : Record → Record) : Prop where
  lookup : ∀ (record : Record) (name : String), name ∈ restoredFields →
    (change record)[name]? = record[name]?
  insert : ∀ (record : Record) (name : String) (value : Json), name ∈ restoredFields →
    change (record.insert name value) = (change record).insert name value
  erase : ∀ (record : Record) (name : String), name ∈ restoredFields →
    change (record.erase name) = (change record).erase name

variable {name : String} {value : Json} {change more : Record → Record}

theorem Table.getElem?_erase (record : Record) (name key : String) :
    (record.erase name)[key]? = if name = key then none else record[key]? := by
  rw [Std.ExtTreeMap.getElem?_erase]
  simp only [Std.compare_eq_iff_eq]

theorem spares_insert (hname : name ∉ restoredFields) : Spares (·.insert name value) := by
  constructor
  · intro record other hother
    rw [Table.getElem?_insert, if_neg]
    rintro rfl
    exact hname hother
  · intro record other json hother
    refine Table.ext_getElem? fun key => ?_
    simp only [Table.getElem?_insert]
    by_cases hkey : name = key
    · subst hkey
      rw [if_pos rfl, if_neg, if_pos rfl]
      rintro rfl
      exact hname hother
    · simp only [hkey, ↓reduceIte]
  · intro record other hother
    refine Table.ext_getElem? fun key => ?_
    simp only [Table.getElem?_insert, Table.getElem?_erase]
    by_cases hkey : name = key
    · subst hkey
      rw [if_pos rfl, if_neg, if_pos rfl]
      rintro rfl
      exact hname hother
    · simp only [hkey, ↓reduceIte]

theorem spares_erase (hname : name ∉ restoredFields) : Spares (·.erase name) := by
  constructor
  · intro record other hother
    rw [Table.getElem?_erase, if_neg]
    rintro rfl
    exact hname hother
  · intro record other json hother
    refine Table.ext_getElem? fun key => ?_
    simp only [Table.getElem?_insert, Table.getElem?_erase]
    by_cases hkey : name = key
    · subst hkey
      rw [if_pos rfl, if_neg, if_pos rfl]
      rintro rfl
      exact hname hother
    · simp only [hkey, ↓reduceIte]
  · intro record other hother
    refine Table.ext_getElem? fun key => ?_
    simp only [Table.getElem?_erase]
    by_cases hkey : name = key
    · simp [hkey]
    · simp only [hkey, ↓reduceIte]

theorem Spares.comp (h : Spares change) (hmore : Spares more) :
    Spares fun record => more (change record) := by
  constructor
  · intro record name hname
    rw [hmore.lookup _ _ hname, h.lookup _ _ hname]
  · intro record name value hname
    simp only [h.insert _ _ _ hname, hmore.insert _ _ _ hname]
  · intro record name hname
    simp only [h.erase _ _ hname, hmore.erase _ _ hname]

theorem field_not_restored (field : SymbolTextField) : field.name ∉ restoredFields := by
  cases field <;> decide

theorem spares_withTexts (texts : List MovedText) : Spares fun symbol => withTexts symbol texts := by
  induction texts with
  | nil => exact ⟨fun _ _ _ => rfl, fun _ _ _ _ => rfl, fun _ _ _ => rfl⟩
  | cons text texts ih => exact (spares_insert (field_not_restored text.field)).comp ih

theorem foldlM_change {ι : Type} {step : Record → ι → Except IngestError Record}
    {items : List ι} (h : ∀ item ∈ items, ∀ record,
      step (change record) item = change <$> step record item) : ∀ record,
    items.foldlM step (change record) = change <$> items.foldlM step record := by
  induction items with
  | nil => exact fun _ => rfl
  | cons item items ih =>
      intro record
      rw [List.foldlM_cons, List.foldlM_cons, h item List.mem_cons_self]
      cases step record item with
      | error error => rfl
      | ok next => exact ih (fun item hitem => h item (List.mem_cons_of_mem _ hitem)) next

variable {identities : WireIdentities} {fact : Record}

theorem restoreReferences_change (hchange : Spares change) (fact : Record) :
    restoreReferences identities (change fact) = change <$> restoreReferences identities fact := by
  have hfields : ∀ field ∈ wireReferenceFields, ∀ record,
      restoreField identities (change record) field =
        change <$> restoreField identities record field := by
    intro field hfield record
    have hname : field.1 ∈ restoredFields :=
      List.mem_append_left _ (List.mem_map_of_mem hfield)
    unfold restoreField
    rw [hchange.lookup _ _ hname]
    cases record[field.1]? with
    | none => rfl
    | some value =>
        cases hreference : wireReference identities value field.2 with
        | error error => simp only [hreference]; rfl
        | ok reference =>
            simp only [hreference]
            exact congrArg Except.ok (hchange.insert _ _ _ hname).symm
  have hkeys : "parameter_location_keys" ∈ restoredFields := by decide
  have hlist : (change fact).stringList "parameter_location_keys" =
      fact.stringList "parameter_location_keys" := by
    unfold Record.stringList Record.get
    rw [hchange.lookup _ _ hkeys]
  unfold restoreReferences
  rw [foldlM_change hfields fact, hlist]
  cases wireReferenceFields.foldlM (restoreField identities) fact with
  | error error => rfl
  | ok restored =>
      simp only [Functor.map, Except.map, bind, Except.bind, hchange.lookup _ _ hkeys]
      cases restored["parameter_location_keys"]? with
      | none => rfl
      | some _ =>
          cases fact.stringList "parameter_location_keys" with
          | error error => rfl
          | ok keys =>
              simp only
              cases keys.mapM fun key => wireReference identities (.text key) .location with
              | error error => rfl
              | ok references => exact congrArg Except.ok (hchange.insert _ _ _ hkeys).symm

variable [NativeLibrary]

theorem restoreWireFact_symbol (hfact : fact["fact"]? = some (.text "symbol")) :
    restoreWireFact identities fact =
      (·.erase "identity_key") <$> restoreReferences identities fact := by
  have hkey (restored : Record) : restoreKey identities fact restored = .ok restored := by
    have hget : fact.get "fact" = .text "symbol" := by simp [Record.get, hfact]
    unfold restoreKey
    rw [hget]
    split
    · rename_i kind key hkind hkey
      cases hkind
      rw [show wireFactKeys.lookup "symbol" = none by decide]
    · rfl
  unfold restoreWireFact
  cases restoreReferences identities fact with
  | error error => rfl
  | ok restored =>
      simp only [bind, Except.bind, hkey]
      rfl

/-- Restoring the references of a symbol commutes with a change that spares them. -/
theorem restoreWireFact_change (hchange : Spares change)
    (hfact : fact["fact"]? = some (.text "symbol"))
    (hchanged : (change fact)["fact"]? = some (.text "symbol")) :
    restoreWireFact identities (change fact) = change <$> restoreWireFact identities fact := by
  rw [restoreWireFact_symbol hchanged, restoreWireFact_symbol hfact,
    restoreReferences_change hchange]
  cases restoreReferences identities fact with
  | error error => rfl
  | ok restored =>
      exact congrArg Except.ok (hchange.erase restored "identity_key" (by decide)).symm

/-- A field that is no reference stays as it is. -/
theorem restoreWireFact_lookup {restored : Record} (hname : name ∉ restoredFields)
    (hfact : fact["fact"]? = some (.text "symbol"))
    (h : restoreWireFact identities fact = .ok restored) : restored[name]? = fact[name]? := by
  cases hvalue : fact[name]? with
  | none =>
      have hsame : fact.erase name = fact := by
        refine Table.ext_getElem? fun key => ?_
        rw [Table.getElem?_erase]
        split
        · rename_i hkey
          rw [← hkey, hvalue]
        · rfl
      have hchange := @restoreWireFact_change _ identities fact _ (spares_erase hname) hfact
        (by rw [hsame, hfact])
      rw [hsame, h] at hchange
      have hrestored : restored = restored.erase name := Except.ok.inj hchange
      rw [hrestored]
      simp
  | some value =>
      have hsame : fact.insert name value = fact := by
        refine Table.ext_getElem? fun key => ?_
        rw [Table.getElem?_insert]
        split
        · rename_i hkey
          rw [← hkey, hvalue]
        · rfl
      have hchange := @restoreWireFact_change (·.insert name value) identities fact _
        (spares_insert hname) hfact (by rw [hsame, hfact])
      rw [hsame, h] at hchange
      have hrestored : restored = restored.insert name value := Except.ok.inj hchange
      rw [hrestored]
      simp

end Spares

/-! ## The builder -/

section Builder

variable [NativeLibrary]

theorem completeSymbol_idle (logical : Option Record) (fragments : List Record) :
    completeSymbol logical ⟨true, none⟩ fragments = .ok (logical, fragments) := by
  cases fragments <;> rfl

/-- The builder takes from the spool the fragments that complete the symbol. -/
theorem completeSymbol_of_acceptAll {symbol : Record} {more : List Record} (n : Nat) :
    ∀ {pending : PendingSymbol} {fragments : List Record}, fragments.length = n + 1 →
      acceptAll ⟨true, some pending⟩ fragments = .ok (List.replicate n none ++ [some symbol]) →
        completeSymbol none ⟨true, some pending⟩ (fragments ++ more) = .ok (some symbol, more) := by
  induction n with
  | zero =>
      intro pending fragments hlength h
      obtain ⟨fragment, rfl⟩ := List.length_eq_one_iff.mp hlength
      obtain ⟨result, chunks, rest, haccept, hrest, hresults⟩ := acceptAll_cons_iff.mp h
      obtain ⟨text, pending', -, -, -, hstep, rfl⟩ := accept_pending_iff.mp haccept
      cases hresults
      cases hstep
      rw [List.singleton_append, completeSymbol]
      simp only [haccept, Except.mapError]
      exact completeSymbol_idle _ _
  | succ n ih =>
      intro pending fragments hlength h
      obtain ⟨fragment, fragments, rfl⟩ := List.exists_cons_of_length_eq_add_one hlength
      obtain ⟨result, chunks, rest, haccept, hrest, hresults⟩ := acceptAll_cons_iff.mp h
      obtain ⟨text, pending', -, -, -, hstep, rfl⟩ := accept_pending_iff.mp haccept
      cases hresults
      rw [List.cons_append, completeSymbol]
      simp only [haccept, Except.mapError]
      have hlength' : fragments.length = n + 1 := Nat.succ.inj hlength
      cases hstep with
      | more hpart => exact ih hlength' hrest
      | next hend hnext => exact ih hlength' hrest

/-- The builder's turn for a symbol that is whole. -/
def buildWhole (fact : Record) (symbols fragments : List Record) :
    Except BuildError (List Record) := do
  let symbol ← (restoreWireFact (fun _ => ∅) fact).mapError BuildError.ingest
  let logicals ← reassembleSymbols symbols fragments
  return symbol :: logicals

theorem reassemble_whole {fact : Record} (symbols fragments : List Record)
    (hfact : fact["fact"]? = some (.text "symbol")) (hwhole : fact["text_chunks"]? = none) :
    reassembleSymbols (fact :: symbols) fragments = buildWhole fact symbols fragments := by
  unfold reassembleSymbols buildWhole
  cases hrestore : restoreWireFact (fun _ => ∅) fact with
  | error error => rfl
  | ok restored =>
      have hsymbol : restored["fact"]? = some (.text "symbol") := by
        rw [restoreWireFact_lookup (by decide) hfact hrestore, hfact]
      have hnone : restored["text_chunks"]? = none := by
        rw [restoreWireFact_lookup (by decide) hfact hrestore, hwhole]
      have haccept := accept_idle_iff.mpr
        ⟨not_chunk_of_symbol hsymbol, .inl ⟨hnone, rfl, @rfl _ (⟨true, none⟩ : SymbolTextChunks)⟩⟩
      simp only [haccept, Except.mapError, bind, Except.bind, completeSymbol_idle]

theorem FragmentGroup.restored {symbol descriptor restored : Record} {moved : List MovedText}
    {fragments : List Record} (h : FragmentGroup symbol moved descriptor fragments)
    (hrestore : restoreWireFact (fun _ => ∅) descriptor = .ok restored) :
    FragmentGroup (withTexts (restored.erase "text_chunks") moved) moved restored fragments := by
  obtain ⟨hordered, hbounded, hdescriptor, key, hsymbol, rfl⟩ := h
  have hfact := FragmentGroup.fact
    ⟨hordered, hbounded, hdescriptor, key, hsymbol, rfl⟩
  have hnodup := hordered.nodup all_nodup
  have hlookup {name : String} (hname : name ∉ restoredFields) :
      restored[name]? = descriptor[name]? := restoreWireFact_lookup hname hfact hrestore
  have hother {name : String} (hname : ∀ field : SymbolTextField, field.name ≠ name)
      (hchunks : name ≠ "text_chunks") :
      (withTexts (restored.erase "text_chunks") moved)[name]? = restored[name]? := by
    rw [getElem?_withTexts_not_mem, getElem?_erase_chunks, if_neg hchunks.symm]
    intro hmem
    obtain ⟨text, -, htext⟩ := mem_names hmem
    exact hname _ htext
  have hkept {name : String} (hname : ∀ field : SymbolTextField, field.name ≠ name)
      (hchunks : name ≠ "text_chunks") : descriptor[name]? = symbol[name]? := by
    refine hdescriptor.kept name hchunks fun hmem => ?_
    obtain ⟨text, -, htext⟩ := mem_names hmem
    exact hname _ htext
  refine ⟨hordered, hbounded, ⟨fun name hname htexts => ?_, fun text htext => ⟨?_, ?_⟩, ?_⟩, key,
    ⟨?_, ?_, hsymbol.given, ?_⟩, rfl⟩
  · rw [getElem?_withTexts_not_mem htexts, getElem?_erase_chunks, if_neg hname.symm]
  · rw [hlookup (field_not_restored text.field), (hdescriptor.removed text htext).1]
  · rw [getElem?_withTexts_mem hnodup htext]
  · obtain ⟨entries, hentries, hdescribed⟩ := hdescriptor.described
    exact ⟨entries, by rw [hlookup (by decide), hentries], hdescribed⟩
  · rw [hother (fun field => (name_ne field).1) (by decide), hlookup (by decide), hfact]
  · rw [hother (fun field => (name_ne field).2.1) (by decide), hlookup (by decide),
      hkept (fun field => (name_ne field).2.1) (by decide), hsymbol.keyed]
  · rw [getElem?_withTexts_not_mem, getElem?_erase_chunks, if_pos rfl]
    intro hmem
    obtain ⟨text, -, htext⟩ := mem_names hmem
    exact (name_ne text.field).2.2 htext

theorem reassemble_group (hhex : ∀ data, IsDigest (NativeLibrary.hexdigest data))
    {symbol descriptor : Record} {moved : List MovedText} {fragments : List Record}
    (symbols more : List Record) (h : FragmentGroup symbol moved descriptor fragments)
    (hproper : Proper moved) :
    reassembleSymbols (descriptor :: symbols) (fragments ++ more) =
      buildWhole symbol symbols more := by
  have hnodup := h.ordered.nodup all_nodup
  obtain ⟨key, hsymbol, -⟩ := h.fragments
  have heq := h.descriptor.symbol_eq hnodup hsymbol.whole
  have hrestored : restoreWireFact (fun _ => ∅) symbol =
      (fun record => withTexts (record.erase "text_chunks") moved) <$>
        restoreWireFact (fun _ => ∅) descriptor := by
    rw [← restoreWireFact_change ((spares_erase (by decide)).comp (spares_withTexts moved))
      h.fact (by rw [heq, hsymbol.fact]), heq]
  unfold reassembleSymbols buildWhole
  rw [hrestored]
  cases hrestore : restoreWireFact (fun _ => ∅) descriptor with
  | error error => rfl
  | ok restored =>
      obtain ⟨descriptions, pending, pieces, texts, hdescriptions, hbegin, hawaits, hwhole,
        rfl⟩ := exists_awaits hhex (h.restored hrestore) hproper
      have haccept := accept_idle_iff.mpr ⟨not_chunk_of_symbol (h.restored hrestore).fact,
        .inr ⟨descriptions, pending, hdescriptions, hbegin, rfl,
          @rfl _ (⟨true, some pending⟩ : SymbolTextChunks)⟩⟩
      have hcomplete := @acceptAll_fragments _ true [] [] rfl texts _ _ hawaits
      unfold Completes at hcomplete
      rw [List.append_nil, hwhole] at hcomplete
      have htaken := @completeSymbol_of_acceptAll _ _ more _ _ _
        (Nat.sub_add_cancel hawaits.fragments_pos).symm hcomplete
      simp only [haccept, Except.mapError, bind, Except.bind, htaken, Functor.map, Except.map]

theorem fact_fragments {symbol descriptor : Record} {moved : List MovedText}
    {fragments : List Record} (h : FragmentGroup symbol moved descriptor fragments)
    {fragment : Record} (hfragment : fragment ∈ fragments) :
    fragment["fact"]? = some (.text symbolTextChunkKind) := by
  obtain ⟨key, -, rfl⟩ := h.fragments
  obtain ⟨text, -, hmem⟩ := List.mem_flatMap.mp hfragment
  obtain ⟨⟨piece, index⟩, -, rfl⟩ := List.mem_map.mp hmem
  exact Record.hasText_iff.mp fact_fragmentRecord

omit [NativeLibrary] in
theorem factRecords_cons (kind : String) (record : Record) (records : List Record) :
    factRecords (record :: records) kind =
      if record.hasText "fact" kind then record :: factRecords records kind
      else factRecords records kind := by
  unfold factRecords
  rw [List.filter_cons]

omit [NativeLibrary] in
theorem factRecords_append (kind : String) (records more : List Record) :
    factRecords (records ++ more) kind = factRecords records kind ++ factRecords more kind := by
  unfold factRecords
  exact List.filter_append _ _

theorem factRecords_group {symbol descriptor : Record} {moved : List MovedText}
    {fragments : List Record} (h : FragmentGroup symbol moved descriptor fragments)
    (kind : String) : factRecords (descriptor :: fragments) kind =
      if kind = "symbol" then [descriptor]
      else if kind = symbolTextChunkKind then fragments else [] := by
  have hfragments : factRecords fragments kind =
      if kind = symbolTextChunkKind then fragments else [] := by
    unfold factRecords
    split
    · rename_i hkind
      refine List.filter_eq_self.mpr fun fragment hfragment => ?_
      rw [Record.hasText_iff, fact_fragments h hfragment, hkind]
    · rename_i hkind
      refine List.filter_eq_nil_iff.mpr fun fragment hfragment => ?_
      rw [Record.hasText_iff, fact_fragments h hfragment]
      simpa using Ne.symm hkind
  have hdescriptor : descriptor.hasText "fact" kind = decide (kind = "symbol") := by
    rw [Bool.eq_iff_iff, Record.hasText_iff, h.fact, decide_eq_true_iff]
    simp [eq_comm]
  rw [factRecords_cons, hdescriptor, hfragments]
  by_cases hkind : kind = "symbol"
  · simp [hkind, symbolTextChunkKind]
  · simp [hkind]

/-- The symbols of the delivered records, whoever has put them together. -/
theorem buildSymbols_delivered (hhex : ∀ data, IsDigest (NativeLibrary.hexdigest data))
    {records : List Record} {results : List (Option Record)} (h : Segmented true records results) :
    buildSymbols results.reduceOption = buildSymbols records := by
  have hspool : factRecords results.reduceOption symbolTextChunkKind = [] := by
    induction h with
    | nil => rfl
    | ordinary hfact _ _ ih =>
        rw [List.reduceOption_cons_of_some, factRecords_cons, hfact, ih]
        rfl
    | group hgroup _ _ ih =>
        obtain ⟨key, hsymbol, -⟩ := hgroup.fragments
        rw [List.reduceOption_append, List.reduceOption_replicate_none, List.nil_append,
          List.reduceOption_cons_of_some, factRecords_cons, if_pos rfl,
          not_chunk_of_symbol hsymbol.fact, ih]
        rfl
  unfold buildSymbols
  rw [hspool]
  clear hspool
  induction h with
  | nil => rfl
  | @ordinary record records results hfact hwhole _ ih =>
      rw [List.reduceOption_cons_of_some, factRecords_cons, factRecords_cons, factRecords_cons,
        hfact]
      by_cases hsymbol : record.hasText "fact" "symbol" = true
      · simp only [hsymbol, ↓reduceIte, Bool.false_eq_true]
        rw [reassemble_whole _ _ (Record.hasText_iff.mp hsymbol) hwhole,
          reassemble_whole _ _ (Record.hasText_iff.mp hsymbol) hwhole]
        unfold buildWhole
        rw [ih]
      · simp only [hsymbol, ↓reduceIte, Bool.false_eq_true]
        exact ih
  | @group symbol descriptor moved fragments records results hgroup hproper _ ih =>
      obtain ⟨key, hsymbol, -⟩ := hgroup.fragments
      rw [List.reduceOption_append, List.reduceOption_replicate_none, List.nil_append,
        List.reduceOption_cons_of_some, factRecords_cons, if_pos rfl,
        if_pos (Record.hasText_iff.mpr hsymbol.fact), ← List.cons_append, factRecords_append,
        factRecords_append, factRecords_group hgroup, factRecords_group hgroup, if_pos rfl,
        if_neg (by decide), if_pos rfl, List.singleton_append,
        reassemble_group hhex _ _ hgroup hproper, reassemble_whole _ _ hsymbol.fact hsymbol.whole]
      unfold buildWhole
      rw [ih]

/-- The other facts are delivered as they are. -/
theorem factRecords_delivered {records : List Record} {results : List (Option Record)}
    (h : Segmented true records results) {kind : String} (hsymbol : kind ≠ "symbol")
    (hchunk : kind ≠ symbolTextChunkKind) :
    factRecords results.reduceOption kind = factRecords records kind := by
  induction h with
  | nil => rfl
  | ordinary _ _ _ ih =>
      rw [List.reduceOption_cons_of_some, factRecords_cons, factRecords_cons, ih]
  | group hgroup _ _ ih =>
      obtain ⟨key, hrecord, -⟩ := hgroup.fragments
      rw [List.reduceOption_append, List.reduceOption_replicate_none, List.nil_append,
        List.reduceOption_cons_of_some, factRecords_cons, if_pos rfl, ← List.cons_append,
        factRecords_append, factRecords_group hgroup, if_neg hsymbol, if_neg hchunk,
        List.nil_append, ih, if_neg]
      rw [Record.hasText_iff, hrecord.fact]
      simpa using Ne.symm hsymbol

theorem segmented_other {assemble : Bool} {records : List Record}
    {results : List (Option Record)} (other : Bool) (h : Segmented assemble records results) :
    ∃ results, Segmented other records results := by
  induction h with
  | nil => exact ⟨_, .nil⟩
  | ordinary hfact hwhole _ ih =>
      obtain ⟨results, hresults⟩ := ih
      exact ⟨_, .ordinary hfact hwhole hresults⟩
  | group hgroup hproper _ ih =>
      obtain ⟨results, hresults⟩ := ih
      exact ⟨_, .group hgroup hproper hresults⟩

end Builder

/-! ## The client -/

section Client

variable [NativeLibrary]

/-- A record that the client takes for a fact. -/
def IsFact (request : Request) (record : Record) : Prop :=
  record.hasText "type" "fact" = true ∧ ¬ (request.chunksNegotiated = false ∧
    (record.hasText "fact" symbolTextChunkKind ∨ record["text_chunks"]?.isSome))

/-- A record that ends a response. -/
def IsCompletion (request : Request) (record : Record) : Prop :=
  record.hasText "type" "fact" = false ∧
    (record.hasText "type" "complete" ∧ record.hasText "request_id" request.unitId) ∧
    record["success"]? = some (.bool true)

/-- What `on_fact` is given for the facts of a response. -/
def delivered (preserve : Bool) (facts : List Record) (results : List (Option Record)) :
    List Record :=
  if preserve then facts else results.reduceOption

theorem foldlM_complete {request : Request} {chunks : SymbolTextChunks} {given : List Record} :
    ∀ {records : List Record} {response : Response},
      records.foldlM (Response.accept request) ⟨.complete, chunks, given⟩ = .ok response ↔
        records = [] ∧ response = ⟨.complete, chunks, given⟩ := by
  rintro (_ | ⟨record, records⟩) response
  · constructor
    · intro h
      cases h
      exact ⟨rfl, rfl⟩
    · rintro ⟨-, rfl⟩
      rfl
  · constructor
    · intro h
      obtain ⟨_, haccept, -⟩ := bind_eq_ok.mp h
      cases haccept
    · rintro ⟨h, -⟩
      cases h

theorem acceptFact_ok_iff {request : Request} {chunks : SymbolTextChunks} {given : List Record}
    {record : Record} {response : Response} :
    Response.acceptFact request ⟨.facts, chunks, given⟩ record = .ok response ↔
      ¬ (request.chunksNegotiated = false ∧
        (record.hasText "fact" symbolTextChunkKind ∨ record["text_chunks"]?.isSome)) ∧
      ∃ result chunks', chunks.accept record = .ok (result, chunks') ∧
        response = ⟨.facts, chunks', given ++ delivered request.preserveSymbolChunks [record]
          [result]⟩ := by
  have hdelivered (result : Option Record) :
      (if request.preserveSymbolChunks then [record] else result.toList) =
        delivered request.preserveSymbolChunks [record] [result] := by
    cases result <;> rfl
  unfold Response.acceptFact
  rw [bind_eq_ok]
  constructor
  · rintro ⟨_, hnegotiated, h⟩
    obtain ⟨⟨result, chunks'⟩, haccept, h⟩ := bind_eq_ok.mp h
    refine ⟨throwIf_eq_ok.mp hnegotiated, result, chunks', mapError_eq_ok.mp haccept, ?_⟩
    rw [← hdelivered]
    cases h
    rfl
  · rintro ⟨hnegotiated, result, chunks', haccept, rfl⟩
    refine ⟨(), throwIf_eq_ok.mpr hnegotiated,
      bind_eq_ok.mpr ⟨_, mapError_eq_ok.mpr haccept, ?_⟩⟩
    rw [← hdelivered]
    rfl

omit [NativeLibrary] in
theorem delivered_cons (preserve : Bool) (record : Record) (records : List Record)
    (result : Option Record) (results : List (Option Record)) :
    delivered preserve [record] [result] ++ delivered preserve records results =
      delivered preserve (record :: records) (result :: results) := by
  unfold delivered
  cases preserve <;> cases result <;> rfl

/-- The records of a response behind its first two. -/
theorem foldlM_facts_iff {request : Request} {delivery : List Record} (records : List Record) :
    ∀ {chunks : SymbolTextChunks} {given : List Record},
      (∃ response, records.foldlM (Response.accept request) ⟨.facts, chunks, given⟩ =
          .ok response ∧ response.state = .complete ∧ response.facts = delivery) ↔
        ∃ facts completion results, records = facts ++ [completion] ∧
          (∀ fact ∈ facts, IsFact request fact) ∧ IsCompletion request completion ∧
          acceptAll chunks facts = .ok results ∧
          delivery = given ++ delivered request.preserveSymbolChunks facts results := by
  induction records with
  | nil =>
      intro chunks given
      constructor
      · rintro ⟨response, h, hstate, -⟩
        cases h
        cases hstate
      · rintro ⟨facts, completion, results, h, -⟩
        exact absurd h.symm (List.append_ne_nil_of_right_ne_nil _ (List.cons_ne_nil _ _))
  | cons record records ih =>
      intro chunks given
      constructor
      · rintro ⟨response, h, hstate, hfacts⟩
        rw [List.foldlM_cons] at h
        obtain ⟨next, haccept, h⟩ := bind_eq_ok.mp h
        unfold Response.accept at haccept
        simp only at haccept
        split at haccept
        · rename_i htype
          obtain ⟨hnegotiated, result, chunks', hresult, rfl⟩ := acceptFact_ok_iff.mp haccept
          obtain ⟨facts, completion, results, rfl, hall, hcompletion, hresults, rfl⟩ :=
            ih.mp ⟨response, h, hstate, hfacts⟩
          refine ⟨record :: facts, completion, result :: results, rfl,
            List.forall_mem_cons.mpr ⟨⟨htype, hnegotiated⟩, hall⟩, hcompletion,
            acceptAll_cons_iff.mpr ⟨result, chunks', results, hresult, hresults, rfl⟩, ?_⟩
          rw [List.append_assoc, delivered_cons]
        · rename_i htype
          obtain ⟨_, hrequest, haccept⟩ := bind_eq_ok.mp haccept
          split at haccept
          · rename_i hsuccess
            obtain ⟨_, hfinish, haccept⟩ := bind_eq_ok.mp haccept
            cases haccept
            obtain ⟨rfl, rfl⟩ := foldlM_complete.mp h
            refine ⟨[], record, [], rfl, by simp, ⟨Bool.eq_false_iff.mpr htype,
              not_not.mp (throwIf_eq_ok.mp hrequest), hsuccess⟩, ?_, ?_⟩
            · exact bind_eq_ok.mpr ⟨_, mapError_eq_ok.mp hfinish, rfl⟩
            · rw [← hfacts]
              cases request.preserveSymbolChunks <;> simp [delivered]
          · cases haccept
      · rintro ⟨facts, completion, results, hrecords, hall, hcompletion, hresults, rfl⟩
        cases facts with
        | nil =>
            obtain ⟨rfl, rfl⟩ := List.cons.inj hrecords
            obtain ⟨_, hfinish, hresults⟩ := bind_eq_ok.mp hresults
            cases hresults
            obtain ⟨htype, hrequest, hsuccess⟩ := hcompletion
            refine ⟨⟨.complete, chunks, given⟩, ?_, rfl, ?_⟩
            · rw [List.foldlM_cons]
              refine bind_eq_ok.mpr ⟨⟨.complete, chunks, given⟩, ?_, rfl⟩
              unfold Response.accept
              simp only [htype, Bool.false_eq_true, ↓reduceIte, hsuccess]
              exact bind_eq_ok.mpr ⟨(), throwIf_eq_ok.mpr (not_not.mpr hrequest),
                bind_eq_ok.mpr ⟨(), mapError_eq_ok.mpr hfinish, rfl⟩⟩
            · cases request.preserveSymbolChunks <;> simp [delivered]
        | cons fact facts =>
            obtain ⟨rfl, rfl⟩ := List.cons.inj hrecords
            obtain ⟨⟨htype, hnegotiated⟩, hothers⟩ := List.forall_mem_cons.mp hall
            obtain ⟨result, chunks', rest, haccept, hrest, rfl⟩ := acceptAll_cons_iff.mp hresults
            obtain ⟨response, hresponse, hstate, hdelivery⟩ :=
              ih.mpr ⟨facts, completion, rest, rfl, hothers, hcompletion, hrest,
                by rw [List.append_assoc, delivered_cons]⟩
            refine ⟨response, ?_, hstate, hdelivery⟩
            rw [List.foldlM_cons]
            refine bind_eq_ok.mpr ⟨_, ?_, hresponse⟩
            unfold Response.accept
            simp only [htype, ↓reduceIte]
            exact acceptFact_ok_iff.mpr ⟨hnegotiated, result, chunks', haccept, rfl⟩

/-- The two records before the facts. -/
def Opens (request : Request) (hello begin : Record) : Prop :=
  (hello.hasText "type" "hello" ∧ request.repeatsHandshake hello) ∧
    begin.keys = ["request_id", "type"] ∧ begin.hasText "request_id" request.unitId ∧
    begin.hasText "type" "begin"

theorem analyzeStream_ok_iff {request : Request} {records delivery : List Record} :
    analyzeStream request records = .ok delivery ↔
      ∃ hello begin facts completion results,
        records = hello :: begin :: (facts ++ [completion]) ∧ Opens request hello begin ∧
        (∀ fact ∈ facts, IsFact request fact) ∧ IsCompletion request completion ∧
        acceptAll ⟨!request.preserveSymbolChunks, none⟩ facts = .ok results ∧
        delivery = delivered request.preserveSymbolChunks facts results := by
  have hfacts := @foldlM_facts_iff _ request delivery
  unfold analyzeStream
  rw [bind_eq_ok]
  constructor
  · rintro ⟨response, h, hresponse⟩
    obtain ⟨_, hstate, hdelivery⟩ := bind_eq_ok.mp hresponse
    rw [throwIf_eq_ok, ne_eq, not_not] at hstate
    cases hdelivery
    rcases records with _ | ⟨hello, _ | ⟨begin, records⟩⟩
    · cases h
      cases hstate
    · obtain ⟨next, haccept, h⟩ := bind_eq_ok.mp h
      cases h
      obtain ⟨_, -, haccept⟩ := bind_eq_ok.mp haccept
      cases haccept
      cases hstate
    · obtain ⟨next, hhello, h⟩ := bind_eq_ok.mp h
      obtain ⟨_, hopens, hhello⟩ := bind_eq_ok.mp hhello
      cases hhello
      obtain ⟨next, hbegin, h⟩ := bind_eq_ok.mp h
      obtain ⟨_, hbegins, hbegin⟩ := bind_eq_ok.mp hbegin
      cases hbegin
      obtain ⟨facts, completion, results, rfl, hall, hcompletion, hresults, hdelivery⟩ :=
        (hfacts records).mp ⟨response, h, hstate, rfl⟩
      exact ⟨hello, begin, facts, completion, results, rfl,
        ⟨not_not.mp (throwIf_eq_ok.mp hopens), not_not.mp (throwIf_eq_ok.mp hbegins)⟩, hall,
        hcompletion, hresults, hdelivery⟩
  · rintro ⟨hello, begin, facts, completion, results, rfl, ⟨hopens, hbegins⟩, hall, hcompletion,
      hresults, hdelivery⟩
    obtain ⟨response, h, hstate, rfl⟩ := (hfacts (facts ++ [completion])).mpr
      ⟨facts, completion, results, rfl, hall, hcompletion, hresults,
        by rw [List.nil_append, hdelivery]⟩
    refine ⟨response, ?_, bind_eq_ok.mpr ⟨(), throwIf_eq_ok.mpr (not_not.mpr hstate), rfl⟩⟩
    refine bind_eq_ok.mpr ⟨⟨.begin, ⟨!request.preserveSymbolChunks, none⟩, []⟩, ?_,
      bind_eq_ok.mpr ⟨⟨.facts, ⟨!request.preserveSymbolChunks, none⟩, []⟩, ?_, h⟩⟩
    · exact bind_eq_ok.mpr ⟨(), throwIf_eq_ok.mpr (not_not.mpr hopens), rfl⟩
    · exact bind_eq_ok.mpr ⟨(), throwIf_eq_ok.mpr (not_not.mpr hbegins), rfl⟩

/-- What the builder makes of the whole symbols and of the records as they come. -/
structure SameFacts (whole physical : List Record) : Prop where
  symbols : buildSymbols whole = buildSymbols physical
  others : ∀ kind, kind ≠ "symbol" → kind ≠ symbolTextChunkKind →
    factRecords whole kind = factRecords physical kind

/-- Both ways of delivery accept the same responses and lead to the same symbols. -/
theorem analyzeStream_agrees (hhex : ∀ data, IsDigest (NativeLibrary.hexdigest data))
    (request : Request) (preserve : Bool) {records delivery : List Record}
    (h : analyzeStream { request with preserveSymbolChunks := preserve } records = .ok delivery) :
    ∃ other, analyzeStream { request with preserveSymbolChunks := !preserve } records = .ok other ∧
      SameFacts (if preserve then other else delivery) (if preserve then delivery else other) := by
  obtain ⟨hello, begin, facts, completion, results, rfl, hopens, hall, hcompletion, hresults, rfl⟩ :=
    analyzeStream_ok_iff.mp h
  have hsegmented := (acceptAll_iff hhex).mp hresults
  obtain ⟨results', hsegmented'⟩ := segmented_other preserve hsegmented
  refine ⟨delivered (!preserve) facts results', analyzeStream_ok_iff.mpr
    ⟨hello, begin, facts, completion, results', rfl, hopens, hall, hcompletion, ?_, rfl⟩, ?_⟩
  · rw [acceptAll_iff hhex, Bool.not_not]
    exact hsegmented'
  · cases preserve
    · exact ⟨buildSymbols_delivered hhex hsegmented,
        fun kind => factRecords_delivered hsegmented⟩
    · exact ⟨buildSymbols_delivered hhex hsegmented',
        fun kind => factRecords_delivered hsegmented'⟩

end Client

/-! ## Exactness -/

section Exactness

variable [NativeLibrary]

/--
The receiver returns the symbol of a whole group with its last record, and
accepts nothing but ordinary records and whole groups.  The analyzer emits such
groups, and the client and the builder put together the same symbols.
-/
theorem symbolText_exact (hhex : ∀ data, IsDigest (NativeLibrary.hexdigest data)) :
    (∀ symbol moved descriptor fragments, FragmentGroup symbol moved descriptor fragments →
      Proper moved → acceptAll { assemble := true } (descriptor :: fragments) =
        .ok (List.replicate fragments.length none ++ [some symbol])) ∧
    (∀ assemble records results, acceptAll { assemble } records = .ok results ↔
      Segmented assemble records results) ∧
    (∀ symbol key, IsSymbolRecord symbol key → ∃ enough, ∀ fuel ≥ enough,
      (longTexts symbol = [] ∧ emitSymbolText fuel symbol = some [symbol]) ∨
        ∃ moved descriptor fragments,
          emitSymbolText fuel symbol = some (descriptor :: fragments) ∧
          moved.map (fun text : MovedText => (text.field, text.text)) = longTexts symbol ∧
          FragmentGroup symbol moved descriptor fragments ∧ Proper moved) ∧
    ∀ (request : Request) preserve records delivery,
      analyzeStream { request with preserveSymbolChunks := preserve } records = .ok delivery →
        ∃ other,
          analyzeStream { request with preserveSymbolChunks := !preserve } records = .ok other ∧
          SameFacts (if preserve then other else delivery)
            (if preserve then delivery else other) := by
  refine ⟨fun symbol moved descriptor fragments hgroup hproper => ?_,
    fun assemble records results => acceptAll_iff hhex, fun symbol key hsymbol => ?_,
    fun request preserve records delivery => analyzeStream_agrees hhex request preserve⟩
  · have hsegmented := @Segmented.group _ true _ _ _ _ _ _ hgroup hproper .nil
    rw [List.append_nil] at hsegmented
    exact acceptAll_of_segmented hhex hsegmented
  · refine ⟨((longTexts symbol).map fun text => (utf8 text.2).length).sum, fun fuel hfuel =>
      emitSymbolText_spec hsymbol fun text htext => ?_⟩
    have hmem : (utf8 text.2).length ∈ (longTexts symbol).map fun text => (utf8 text.2).length :=
      List.mem_map_of_mem htext
    have := List.le_sum_of_mem hmem
    omega

end Exactness

/-! ## A moved text and an empty one -/

/-- SHA-256 where the sample needs it. -/
def sampleHexdigest (data : Bytes) : String :=
  if data = utf8 "int f()" then "8c2c76569f68e6fbfc42a0857fe28f70fd591d32118104b2b71a8b8db3cd32c9"
  else "e3b0c44298fc1c149afbf4c8996fb92427ae41e4649b934ca495991b7852b855"

@[reducible] def sampleLibrary : NativeLibrary where
  hexdigest := sampleHexdigest
  str _ := ""

theorem isDigest_sampleHexdigest (data : Bytes) : IsDigest (sampleHexdigest data) := by
  unfold sampleHexdigest
  split <;> decide

def sampleSymbol (documentation : String) : Record :=
  Table.ofEntries [("type", .text "fact"), ("fact", .text "symbol"), ("key", .text "f"),
    ("documentation", .text documentation)]

def sampleMoved (pieces : List String) : List MovedText := [⟨.documentation, pieces⟩]

/-- The symbol's record with the description of its documentation. -/
def sampleDescriptor (documentation : String) : Record :=
  Table.ofEntries [("type", .text "fact"), ("fact", .text "symbol"), ("key", .text "f"),
    ("text_chunks", .object [("documentation", @describeText sampleLibrary documentation)])]

theorem sampleGroup {pieces : List String}
    (hbounded : ∀ piece ∈ pieces, piece ≠ "" ∧ (utf8 piece).length ≤ symbolTextChunkBytes) :
    @FragmentGroup sampleLibrary (sampleSymbol (String.join pieces)) (sampleMoved pieces)
      (sampleDescriptor (String.join pieces))
      ((sampleMoved pieces).flatMap (MovedText.fragments "f")) := by
  have hsymbol (name : String) : (sampleSymbol (String.join pieces))[name]? =
      if "documentation" = name then some (.text (String.join pieces))
      else if "key" = name then some (.text "f") else if "fact" = name then some (.text "symbol")
      else if "type" = name then some (.text "fact") else none := by
    simp [sampleSymbol, Table.ofEntries]
  have hdescriptor (name : String) : (sampleDescriptor (String.join pieces))[name]? =
      if "text_chunks" = name then some (.object [("documentation",
        @describeText sampleLibrary (String.join pieces))])
      else if "key" = name then some (.text "f") else if "fact" = name then some (.text "symbol")
      else if "type" = name then some (.text "fact") else none := by
    simp [sampleDescriptor, Table.ofEntries]
  have hname : SymbolTextField.name .documentation = "documentation" := rfl
  have hordered : [SymbolTextField.documentation].Sublist SymbolTextField.all := by decide
  let _ : NativeLibrary := sampleLibrary
  refine ⟨hordered, ?_, ⟨fun name hchunks hmoved => ?_, ?_, ?_⟩, "f", ⟨?_, ?_, by decide, ?_⟩, rfl⟩
  · rintro text htext
    obtain rfl := List.mem_singleton.mp htext
    exact hbounded
  · have hdocumentation : "documentation" ≠ name := by
      rintro rfl
      exact hmoved (List.mem_singleton.mpr rfl)
    rw [hsymbol, hdescriptor, if_neg hdocumentation, if_neg hchunks.symm]
  · rintro text htext
    obtain rfl := List.mem_singleton.mp htext
    simp only [hname, hsymbol, hdescriptor]
    exact ⟨rfl, rfl⟩
  · refine ⟨_, by rw [hdescriptor]; rfl, ?_, ?_⟩
    · intro name hmem
      obtain ⟨value, hvalue⟩ := Table.mem_keys_iff.mp hmem
      simp only [Table.ofEntries, List.foldl_cons, List.foldl_nil, Table.getElem?_insert] at hvalue
      split at hvalue
      · rename_i hdocumentation
        rw [← hdocumentation]
        exact List.mem_singleton.mpr rfl
      · simp at hvalue
    · rintro text htext
      obtain rfl := List.mem_singleton.mp htext
      refine ⟨_, ?_, @descriptionOf_describeText sampleLibrary _⟩
      simp only [hname, Table.ofEntries, List.foldl_cons, List.foldl_nil, Table.getElem?_insert]
      rfl
  · rw [hsymbol]
    rfl
  · rw [hsymbol]
    rfl
  · rw [hsymbol]
    rfl

theorem symbolText_exact_sample : IsDigest (sampleHexdigest (utf8 "int f()")) ∧
    @acceptAll sampleLibrary { assemble := true } (sampleDescriptor "int f()" ::
        (sampleMoved ["int ", "f()"]).flatMap (MovedText.fragments "f")) =
      .ok [none, none, some (sampleSymbol "int f()")] := by
  refine ⟨isDigest_sampleHexdigest _, ?_⟩
  exact (@symbolText_exact sampleLibrary isDigest_sampleHexdigest).1 _ _ _ _
    (@sampleGroup ["int ", "f()"] (by decide +kernel)) ⟨by decide, by simp [sampleMoved]⟩

/-- An empty text has no fragment, and its description is refused. -/
theorem empty_text_refused :
    @FragmentGroup sampleLibrary (sampleSymbol "") (sampleMoved []) (sampleDescriptor "") [] ∧
      @acceptAll sampleLibrary { assemble := true } [sampleDescriptor ""] =
        .error .invalidDescriptor := by
  refine ⟨@sampleGroup [] (by simp), ?_⟩
  rfl

end CppContextEngine.Ingestion
