import CppContextEngine.Ingestion.FactReferences

/-!
# References of navigation facts

Every key that the builder knows stands for a symbol of its table, in whatever
order files, symbols and includes have entered them.  So what an occurrence, an
edge or a call names is a symbol of the batch.
-/

namespace CppContextEngine.Ingestion

open CppContextEngine.Foundation CppContextEngine.Models

theorem lift_eq_ok {α : Type} {step : Except IngestError α} {a : α} :
    (liftM step : Except Raised α) = .ok a ↔ step = .ok a :=
  mapError_eq_ok

theorem lift_build_eq_ok {α : Type} {step : Except BuildError α} {a : α} :
    (liftM step : Except Raised α) = .ok a ↔ step = .ok a :=
  mapError_eq_ok

/-- The key that a symbol is filed under. -/
def symbolKey (row : SymbolRow) : String := row.id.val

/-- Symbols are filed under their ids, every key stands for one of them, and no call is read. -/
structure Named (tables : FactTables) : Prop where
  keyed : Table.Keyed symbolKey tables.symbols
  known : ∀ id, FiledId tables.keys id → ∃ row, tables.symbols[id.val]? = some row
  uncalled : tables.callsiteIds = ∅

section Entering

variable {tables next : FactTables}

theorem Named.initial : Named {} where
  keyed := Table.Keyed.empty symbolKey
  known := by
    rintro id ⟨key, hget⟩
    simp at hget
  uncalled := rfl

/-- Entering a key together with its symbol. -/
theorem Named.enter (h : Named tables) {key : String} {id : Identifier}
    (hkeys : next.keys = tables.keys.insert key id)
    (hsymbols : next.symbols = tables.symbols ∨
      ∃ row : SymbolRow, row.id = id ∧ next.symbols = tables.symbols.insert (symbolKey row) row)
    (hpresent : ∃ row, next.symbols[id.val]? = some row)
    (hcalls : next.callsiteIds = tables.callsiteIds) : Named next where
  keyed := by
    rcases hsymbols with hsame | ⟨row, -, hinsert⟩
    · rw [hsame]
      exact h.keyed
    · rw [hinsert]
      exact h.keyed.insert row
  known := by
    rintro other ⟨otherKey, hget⟩
    rw [hkeys, Table.getElem?_insert] at hget
    split at hget
    · cases hget
      exact hpresent
    · obtain ⟨row, hrow⟩ := h.known other ⟨otherKey, hget⟩
      rcases hsymbols with hsame | ⟨new, -, hinsert⟩
      · exact ⟨row, by rw [hsame, hrow]⟩
      · rw [hinsert, Table.getElem?_insert]
        split
        · exact ⟨new, rfl⟩
        · exact ⟨row, hrow⟩
  uncalled := by rw [hcalls, h.uncalled]

end Entering

namespace FactContext

variable {ctx : FactContext} {tables next : FactTables} {fact : Record}

/-! ## Files and symbols -/

theorem enterSymbol_named (h : Named tables) (key : String) (symbol : SymbolRow) :
    Named (ctx.enterSymbol { tables with keys := tables.keys.insert key symbol.id } symbol) := by
  unfold enterSymbol
  split
  · exact h.enter rfl (.inr ⟨symbol, rfl, rfl⟩) ⟨symbol, by simp⟩ rfl
  · rename_i previous hprevious
    split
    · exact h.enter rfl (.inr ⟨symbol, rfl, rfl⟩) ⟨symbol, by simp⟩ rfl
    · exact h.enter rfl (.inl rfl) ⟨previous, hprevious⟩ rfl

section Steps

variable [NativeLibrary]

theorem fileSymbol_named (h : Named tables) {path : String} {key : Option String}
    (hstep : ctx.fileSymbol tables path key = .ok next) : Named next := by
  simp only [fileSymbol] at hstep
  split at hstep
  · rename_i row hrow
    cases hstep
    exact h.enter rfl (.inl rfl) ⟨row, hrow⟩ rfl
  · obtain ⟨name, -, hok⟩ := bind_eq_ok.mp hstep
    cases hok
    exact h.enter rfl (.inr ⟨ctx.fileRow path _ name, rfl, rfl⟩)
      ⟨ctx.fileRow path _ name, Std.ExtTreeMap.getElem?_insert_self⟩ rfl

theorem fileFact_named (h : Named tables) (hstep : ctx.fileFact tables fact = .ok next) :
    Named next := by
  simp only [fileFact, bind_eq_ok] at hstep
  obtain ⟨key, -, raw, -, path, -, hfile⟩ := hstep
  have hentered : Named { tables with files := tables.files.insert key path } :=
    ⟨h.keyed, h.known, h.uncalled⟩
  exact fileSymbol_named hentered hfile

theorem symbolFact_named (h : Named tables) (hstep : ctx.symbolFact tables fact = .ok next) :
    Named next := by
  simp only [symbolFact, bind_eq_ok] at hstep
  obtain ⟨key, -, symbol, -, hok⟩ := hstep
  cases hok
  exact enterSymbol_named h key symbol

theorem includeFile_named (h : Named tables) (hstep : ctx.includeFile tables fact = .ok next) :
    Named next := by
  unfold includeFile at hstep
  split at hstep
  · obtain ⟨path, -, hfile⟩ := bind_eq_ok.mp hstep
    exact fileSymbol_named h hfile
  · cases hstep
    exact h

/-- After files, symbols and includes, every key stands for a symbol. -/
theorem symbolTables_named {facts : List Record} (hbuild : ctx.symbolTables facts = .ok tables) :
    Named tables := by
  simp only [symbolTables, bind_eq_ok, lift_eq_ok] at hbuild
  obtain ⟨files, hfiles, symbols, hsymbols, hincludes⟩ := hbuild
  have hnamed : Named files := by
    refine foldlM_invariant ?_ Named.initial hfiles
    intro fact _ state next hstate hstep
    obtain ⟨restored, -, hfile⟩ := bind_eq_ok.mp hstep
    exact fileFact_named hstate hfile
  have hsymbolsNamed : Named symbols := by
    simp only [symbolPass, bind_eq_ok] at hsymbols
    obtain ⟨left, hloop, done, -, hok⟩ := hsymbols
    cases hok
    refine foldlM_invariant (P := fun state : SymbolState => Named state.1) ?_ hnamed hloop
    intro fact _ state next hstate hstep
    simp only [symbolStep, bind_eq_ok, lift_eq_ok] at hstep
    obtain ⟨restored, -, logical, -, entered, hentered, hnext⟩ := hstep
    cases hnext
    exact symbolFact_named hstate hentered
  refine foldlM_invariant ?_ hsymbolsNamed hincludes
  intro fact _ state next hstate hstep
  obtain ⟨restored, -, hfile⟩ := bind_eq_ok.mp hstep
  exact includeFile_named hstate hfile

end Steps

/-! ## Occurrences and edges -/

section References

variable [NativeLibrary]

/-- What an occurrence names is known. -/
def OccurrenceKnown (tables : FactTables) (row : SymbolOccurrence) : Prop :=
  FiledId tables.keys row.symbolId ∧ ∀ id ∈ row.enclosingSymbolId, FiledId tables.keys id

theorem occurrenceFact_known {row : SymbolOccurrence}
    (h : ctx.occurrenceFact tables fact = .ok row) : OccurrenceKnown tables row := by
  simp only [occurrenceFact, bind_eq_ok] at h
  obtain ⟨key, -, symbolId, hsymbol, raw, -, span, -, kindText, -, kind, -, enclosing, henclosing,
    metadata, -, hok⟩ := h
  cases hok
  refine ⟨⟨key, known_eq_ok.mp hsymbol⟩, ?_⟩
  intro id hid
  unfold enclosingId at henclosing
  split at henclosing
  · rename_i text _
    split at henclosing
    · cases henclosing
      cases hid
    · obtain ⟨found, hfound, rfl⟩ := map_eq_ok.mp henclosing
      cases hid
      exact ⟨text, known_eq_ok.mp hfound⟩
  · cases henclosing
    cases hid

theorem occurrencePass_keyed {facts : List Record} {occurrences : Table SymbolOccurrence}
    (h : ctx.occurrencePass facts tables = .ok occurrences) :
    Table.Keyed (fun row => row.id.val) occurrences := by
  refine foldlM_invariant ?_ (Table.Keyed.empty _) h
  intro fact _ state next hstate hstep
  simp only [occurrenceStep, bind_eq_ok] at hstep
  obtain ⟨restored, -, made, -, hok⟩ := hstep
  cases hok
  exact hstate.insert made

theorem occurrencePass_known {facts : List Record} {occurrences : Table SymbolOccurrence}
    (h : ctx.occurrencePass facts tables = .ok occurrences) :
    ∀ row ∈ occurrences.items, OccurrenceKnown tables row := by
  intro row hrow
  obtain ⟨key, hget⟩ := Table.mem_items.mp hrow
  refine foldlM_invariant (P := fun table : Table SymbolOccurrence => ∀ (key : String)
    (row : SymbolOccurrence), table[key]? = some row → OccurrenceKnown tables row)
    ?_ ?_ h key row hget
  · intro fact _ state next hstate hstep key row hget
    simp only [occurrenceStep, bind_eq_ok] at hstep
    obtain ⟨restored, -, made, hmade, hok⟩ := hstep
    cases hok
    rw [Table.getElem?_insert] at hget
    split at hget
    · cases hget
      exact occurrenceFact_known hmade
    · exact hstate key row hget
  · simp

/-- The two ends of an edge are known. -/
def EdgeKnown (tables : FactTables) (row : EdgeRow) : Prop :=
  FiledId tables.keys row.sourceId ∧ FiledId tables.keys row.targetId

theorem edgeFact_known {row : EdgeRow} (h : ctx.edgeFact tables fact = .ok (some row)) :
    EdgeKnown tables row := by
  simp only [edgeFact, bind_eq_ok] at h
  obtain ⟨relation, -, sourceKey, -, h⟩ := h
  split at h
  · rename_i target _
    simp only [bind_eq_ok] at h
    obtain ⟨sourceId, hsource, targetId, htarget, location, -, hok⟩ := h
    cases hok
    exact ⟨⟨sourceKey, known_eq_ok.mp hsource⟩, ⟨target, known_eq_ok.mp htarget⟩⟩
  · cases h

theorem edgePass_keyed {facts : List Record} {edges : Table EdgeRow}
    (h : ctx.edgePass facts tables = .ok edges) : Table.Keyed (fun row => row.id.val) edges := by
  refine foldlM_invariant ?_ (Table.Keyed.empty _) h
  intro fact _ state next hstate hstep
  simp only [edgeStep, bind_eq_ok] at hstep
  obtain ⟨restored, -, made, -, hok⟩ := hstep
  split at hok
  · rename_i edge
    cases hok
    exact hstate.insert edge
  · cases hok
    exact hstate

theorem edgePass_known {facts : List Record} {edges : Table EdgeRow}
    (h : ctx.edgePass facts tables = .ok edges) : ∀ row ∈ edges.items, EdgeKnown tables row := by
  intro row hrow
  obtain ⟨key, hget⟩ := Table.mem_items.mp hrow
  refine foldlM_invariant (P := fun table : Table EdgeRow => ∀ (key : String) (row : EdgeRow),
    table[key]? = some row → EdgeKnown tables row) ?_ ?_ h key row hget
  · intro fact _ state next hstate hstep key row hget
    simp only [edgeStep, bind_eq_ok] at hstep
    obtain ⟨restored, -, made, hmade, hok⟩ := hstep
    split at hok
    · cases hok
      rw [Table.getElem?_insert] at hget
      split at hget
      · cases hget
        exact edgeFact_known hmade
      · exact hstate key row hget
    · cases hok
      exact hstate key row hget
  · simp

end References

/-! ## Calls -/

/-- What a callsite names is known, and its key stands for its id. -/
structure SiteKnown (tables : FactTables) (key : String) (site : CallSiteRow) : Prop where
  entered : tables.callsiteIds[key]? = some site.id
  owner : FiledId tables.keys site.ownerSymbolId
  target : ∀ id ∈ site.staticTargetSymbolId, FiledId tables.keys id
  frames : ∀ frame ∈ site.expansionStack, FiledId tables.keys frame.macroSymbolId

theorem expansionFrame_known {raw : Json} {frame : MacroExpansionFrame}
    (h : ctx.expansionFrame tables raw = .ok frame) : FiledId tables.keys frame.macroSymbolId := by
  unfold expansionFrame at h
  split at h
  · simp only [bind_eq_ok] at h
    obtain ⟨key, -, macroId, hmacro, nameText, -, spelling, -, spellingSpan, -, expansion, -,
      expansionSpan, -, name, -, hok⟩ := h
    cases hok
    exact ⟨key, known_eq_ok.mp hmacro⟩
  · cases h

theorem expansionStack_known {frames : List MacroExpansionFrame}
    (h : ctx.expansionStack tables fact = .ok frames) :
    ∀ frame ∈ frames, FiledId tables.keys frame.macroSymbolId := by
  intro frame hframe
  unfold expansionStack at h
  split at h
  · obtain ⟨raw, -, hraw⟩ := (collects_of_mapM h).sound frame hframe
    exact expansionFrame_known hraw
  · cases h

/-- What the sites of `sites_by_key` say. -/
def SitesKnown (tables : FactTables) (sites : SitesByKey) : Prop :=
  ∀ entry ∈ sites, SiteKnown tables entry.1 entry.2

theorem SitesKnown.upsert {sites : SitesByKey} (h : SitesKnown tables sites) {key : String}
    {site : CallSiteRow} (hsite : SiteKnown tables key site) :
    SitesKnown tables (upsert sites key site) := by
  intro entry hentry
  rcases mem_upsert hentry with hold | rfl
  · exact h entry hold
  · exact hsite

theorem callsiteFact_known {site : CallSiteRow} (h : ctx.callsiteFact tables fact = .ok site) :
    ∃ key, fact.string "key" = .ok key ∧ SiteKnown tables key site := by
  simp only [callsiteFact, bind_eq_ok] at h
  obtain ⟨key, hkey, staticKey, -, stack, hstack, id, hid, ownerKey, -, ownerId, howner, kindText,
    -, kind, -, spelling, -, rawExpansion, -, expansion, -, complete, -, staticId, hstatic, reason,
    -, callee, -, h⟩ := h
  split at h
  · cases h
    refine ⟨key, hkey, known_eq_ok.mp hid, ⟨ownerKey, known_eq_ok.mp howner⟩, ?_,
      expansionStack_known hstack⟩
    intro target htarget
    obtain ⟨text, -, -, hknown⟩ := knownIfGiven_some hstatic htarget
    exact ⟨text, known_eq_ok.mp hknown⟩
  · cases h

/-- A round of the comprehension files one site, which is known, under the fact's key. -/
theorem siteStep_ok {sites nextSites : SitesByKey}
    (hstep : ctx.siteStep tables sites fact = .ok nextSites) :
    ∃ key site, fact.string "key" = .ok key ∧ SiteKnown tables key site ∧
      nextSites = upsert sites key site := by
  simp only [siteStep, bind_eq_ok] at hstep
  obtain ⟨key, hkey, site, hsite, hok⟩ := hstep
  cases hok
  obtain ⟨other, hother, hknown⟩ := callsiteFact_known hsite
  obtain rfl := Except.ok.inj (hother.symm.trans hkey)
  exact ⟨other, site, hkey, hknown, rfl⟩

/-- The comprehension knows its sites, and files one for each fact. -/
theorem sites_made {siteFacts : List Record} {made : SitesByKey}
    (h : siteFacts.foldlM (ctx.siteStep tables) [] = .ok made) :
    SitesKnown tables made ∧ ∀ fact ∈ siteFacts, ∀ key, fact.string "key" = .ok key →
      key ∈ made.map Prod.fst := by
  constructor
  · refine foldlM_invariant ?_ (fun _ hentry => by cases hentry) h
    intro fact _ state next hstate hstep
    obtain ⟨key, site, -, hsite, rfl⟩ := siteStep_ok hstep
    exact hstate.upsert hsite
  · refine forall_of_foldlM (Q := fun fact sites => ∀ key, fact.string "key" = .ok key →
      key ∈ sites.map Prod.fst) ?_ ?_ h
    · intro fact state next hstep key hkey
      obtain ⟨filed, site, hfiled, -, rfl⟩ := siteStep_ok hstep
      obtain rfl := Except.ok.inj (hfiled.symm.trans hkey)
      exact mem_keys_upsert.mpr (.inr rfl)
    · intro other fact state next hstate hstep key hkey
      obtain ⟨filed, site, -, -, rfl⟩ := siteStep_ok hstep
      exact mem_keys_upsert.mpr (.inl (hstate key hkey))

section Calls

variable [NativeLibrary]

/-- A resolution files a known site anew, with what it refers to unchanged. -/
theorem resolutionStep_ok {sites nextSites : SitesByKey}
    (hstep : resolutionStep tables sites fact = .ok nextSites) :
    ∃ key site resolved, (key, site) ∈ sites ∧
      (SiteKnown tables key site → SiteKnown tables key resolved) ∧
        nextSites = upsert sites key resolved := by
  simp only [resolutionStep, resolutionFact, bind_eq_ok] at hstep
  obtain ⟨restored, -, key, -, hstep⟩ := hstep
  split at hstep
  · cases hstep
  · rename_i site hlookup
    simp only [bind_eq_ok] at hstep
    obtain ⟨complete, -, reason, -, done, -, resolved, hresolved, hok⟩ := hstep
    cases hok
    have hmem : (key, site) ∈ sites := by
      obtain ⟨before, after, rfl, -⟩ := List.lookup_eq_some_iff.mp hlookup
      simp
    unfold resolveSite at hresolved
    split at hresolved
    · cases hresolved
      refine ⟨key, site, _, hmem, ?_, rfl⟩
      exact fun hsite => ⟨hsite.entered, hsite.owner, hsite.target, hsite.frames⟩
    · cases hresolved

/-- What the loop over the keys of callsites enters. -/
theorem callsiteKeys_ok {siteFacts : List Record} {after : FactTables}
    (h : siteFacts.foldlM ctx.callsiteKeyStep tables = .ok after)
    (huncalled : tables.callsiteIds = ∅) :
    (∃ callsiteIds, after = { tables with callsiteIds }) ∧
      ∀ key id, after.callsiteIds[key]? = some id →
        ∃ fact ∈ siteFacts, fact.string "key" = .ok key := by
  refine foldlM_invariant (P := fun state : FactTables =>
    (∃ callsiteIds, state = { tables with callsiteIds }) ∧
      ∀ (key : String) (id : Identifier), state.callsiteIds[key]? = some id →
        ∃ fact ∈ siteFacts, fact.string "key" = .ok key) ?_ ?_ h
  · intro fact hfact state next hstate hstep
    simp only [callsiteKeyStep, bind_eq_ok] at hstep
    obtain ⟨key, hkey, ownerKey, -, owner, -, spelling, -, raw, -, expansion, -, hok⟩ := hstep
    cases hok
    constructor
    · obtain ⟨callsiteIds, rfl⟩ := hstate.1
      exact ⟨_, rfl⟩
    · intro other id hget
      rw [Table.getElem?_insert] at hget
      split at hget
      · rename_i hsame
        exact ⟨fact, hfact, hsame ▸ hkey⟩
      · exact hstate.2 other id hget
  · exact ⟨⟨tables.callsiteIds, rfl⟩, by simp [huncalled]⟩

/-- Resolutions know their sites, and keep what is filed. -/
theorem sites_resolved {raws : List Record} {made resolved : SitesByKey}
    (hmade : SitesKnown tables made)
    (h : raws.foldlM (resolutionStep tables) made = .ok resolved) :
    SitesKnown tables resolved ∧ ∀ key ∈ made.map Prod.fst, key ∈ resolved.map Prod.fst := by
  refine foldlM_invariant (P := fun sites => SitesKnown tables sites ∧
    ∀ key ∈ made.map Prod.fst, key ∈ sites.map Prod.fst) ?_ ⟨hmade, by simp⟩ h
  intro fact _ state next hstate hstep
  obtain ⟨key, site, resolved, hmem, hkept, rfl⟩ := resolutionStep_ok hstep
  exact ⟨hstate.1.upsert (hkept (hstate.1 _ hmem)),
    fun other hother => mem_keys_upsert.mpr (.inl (hstate.2 other hother))⟩

/-- What the calls of a batch refer to. -/
structure CallsContained (after : FactTables) (sites : List CallSiteRow) : Prop where
  shown : ∀ id, FiledId after.callsiteIds id → ∃ site ∈ sites, site.id = id
  sites : ∀ site ∈ sites, ∃ key, SiteKnown after key site

theorem callSites_contained {facts : List Record} {after : FactTables} {sites : SitesByKey}
    (h : ctx.callSites facts tables = .ok (after, sites)) (huncalled : tables.callsiteIds = ∅) :
    (∃ callsiteIds, after = { tables with callsiteIds }) ∧
      CallsContained after (sites.map Prod.snd) := by
  simp only [callSites, bind_eq_ok] at h
  obtain ⟨siteFacts, -, filled, hkeys, made, hmade, resolved, hresolved, hok⟩ := h
  cases hok
  obtain ⟨hframe, hentered⟩ := callsiteKeys_ok hkeys huncalled
  obtain ⟨hmadeKnown, hmadeKeys⟩ := sites_made hmade
  obtain ⟨hresolvedKnown, hresolvedKeys⟩ := sites_resolved hmadeKnown hresolved
  refine ⟨hframe, ⟨?_, ?_⟩⟩
  · rintro id ⟨key, hget⟩
    obtain ⟨fact, hfact, hkey⟩ := hentered key id hget
    obtain ⟨entry, hentry, rfl⟩ := List.mem_map.mp
      (hresolvedKeys key (hmadeKeys fact hfact key hkey))
    have hsite := hresolvedKnown entry hentry
    refine ⟨entry.2, List.mem_map_of_mem hentry, ?_⟩
    exact Option.some.inj (hsite.entered.symm.trans hget)
  · intro site hsite
    obtain ⟨entry, hentry, rfl⟩ := List.mem_map.mp hsite
    exact ⟨entry.1, hresolvedKnown entry hentry⟩

/-- The callsite and the symbol of a target are known. -/
theorem targetRow_known {row : CallTarget} (h : ctx.targetRow tables fact = .ok row) :
    FiledId tables.callsiteIds row.callsiteId ∧ FiledId tables.keys row.targetSymbolId := by
  simp only [targetRow, callTargetFact, bind_eq_ok, lift_eq_ok] at h
  obtain ⟨restored, -, siteKey, -, site, hsite, targetKey, -, target, htarget, certaintyText, -,
    certainty, -, confidence, -, rawSpan, -, span, -, derivation, -, reason, -, confidenceReason, -,
    evidence, -, hok⟩ := h
  cases hok
  exact ⟨⟨siteKey, known_eq_ok.mp hsite⟩, ⟨targetKey, known_eq_ok.mp htarget⟩⟩

/-- What the pass over calls leaves. -/
theorem callFacts_contained {facts : List Record} {after : FactTables} {rows : CallRows}
    (h : ctx.callFacts facts tables = .ok (after, rows)) (huncalled : tables.callsiteIds = ∅) :
    (∃ callsiteIds, after = { tables with callsiteIds }) ∧ CallsContained after rows.callsites ∧
      ∀ row ∈ rows.targets, FiledId after.callsiteIds row.callsiteId ∧
        FiledId after.keys row.targetSymbolId := by
  simp only [callFacts, bind_eq_ok, lift_eq_ok] at h
  obtain ⟨found, hfound, targets, htargets, hok⟩ := h
  cases hok
  obtain ⟨hframe, hshown, hsites⟩ := callSites_contained hfound huncalled
  refine ⟨hframe, ⟨?_, ?_⟩, ?_⟩
  · intro id hid
    obtain ⟨site, hsite, hsame⟩ := hshown id hid
    exact ⟨site, (mem_sortBy _).mpr hsite, hsame⟩
  · intro site hsite
    exact hsites site ((mem_sortBy _).mp hsite)
  · intro row hrow
    obtain ⟨raw, -, hraw⟩ := (collects_sortBy _ htargets).sound row hrow
    exact targetRow_known hraw

end Calls

end FactContext

end CppContextEngine.Ingestion
