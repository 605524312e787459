import CppContextEngine.Storage.DeepTokens

/-!
# Deep tokens over whole runs

Every operation keeps each stored token on its cache rows.  A cache row stays on
the facts that it was written for only while no index run re-solves a function
of its unit, and while no overlay replaces a function that its unit calls in a
way that the reverse callers miss.
-/

namespace CppContextEngine.Storage.Deep

open CppContextEngine.Foundation

/-! ## Calls -/

/-- A call row of the build leads from one function to the other. -/
def Calls (calls : List CallRow) (variant caller callee : String) : Prop :=
  ∃ call ∈ calls, call.buildVariant = variant ∧ call.owner = caller ∧ call.target = callee

theorem mem_callersOf {calls : List CallRow} {variant caller callee : String} :
    caller ∈ callersOf calls variant callee ↔ Calls calls variant caller callee := by
  simp only [callersOf, Calls, List.mem_map, List.mem_filter, decide_eq_true_eq]
  constructor
  · rintro ⟨call, ⟨hcall, hvariant, htarget⟩, howner⟩
    exact ⟨call, hcall, hvariant, howner, htarget⟩
  · rintro ⟨call, hcall, hvariant, howner, htarget⟩
    exact ⟨call, ⟨hcall, hvariant, htarget⟩, howner⟩

theorem Calls.mono {calls calls' : List CallRow} {variant caller callee : String}
    (h : Calls calls variant caller callee) (hsubset : calls ⊆ calls') :
    Calls calls' variant caller callee := by
  obtain ⟨call, hcall, hrest⟩ := h
  exact ⟨call, hsubset hcall, hrest⟩

/-- The loop ends: each level but the last finds an owner of a call. -/
theorem exists_levels (calls : List CallRow) (variant : String) (functions : List String) :
    ∃ result, levels (callersOf calls variant) (calls.length + 1) functions.dedup
      functions.dedup = some result := by
  have hnext : ∀ function, ∀ caller ∈ callersOf calls variant function,
      caller ∈ functions.dedup ++ calls.map CallRow.owner := by
    intro function caller hcaller
    obtain ⟨call, hcall, -, howner, -⟩ := mem_callersOf.mp hcaller
    exact List.mem_append_right _ (List.mem_map.mpr ⟨call, hcall, howner⟩)
  apply levels_isSome hnext _ (List.nodup_dedup functions) (List.subset_append_left _ _)
  simp only [List.length_append, List.length_map]
  omega

theorem mem_reverseSummaryCallers {calls : List CallRow} {variant caller : String}
    {functions : List String} :
    caller ∈ reverseSummaryCallers calls variant functions ↔ caller ∉ functions ∧
      ∃ function ∈ functions, Relation.ReflTransGen (Calls calls variant) caller function := by
  obtain ⟨result, hresult⟩ := exists_levels calls variant functions
  have hswap : (fun callee caller => caller ∈ callersOf calls variant callee) =
      Function.swap (Calls calls variant) := by
    funext callee caller
    exact propext mem_callersOf
  simp only [reverseSummaryCallers, hresult, Option.getD_some, List.mem_filter,
    mem_levels_iff hresult, Leads, hswap, Relation.reflTransGen_swap, decide_eq_true_eq]
  tauto

/-! ## Deletion and insertion -/

namespace DeepStore

variable {Facts : Type} {store : DeepStore Facts} {doomed : CacheRow Facts → Bool}

theorem mem_dropCache_cache {row : CacheRow Facts} :
    row ∈ (store.dropCache doomed).cache ↔ row ∈ store.cache ∧ doomed row = false := by
  simp [dropCache]

theorem mem_dropCache_tokens {token : Token} :
    token ∈ (store.dropCache doomed).tokens ↔ ∃ old ∈ store.tokens,
      token = { old with mapped := old.mapped.filter fun mapped =>
        ! store.cache.any fun row => doomed row && decide (row.unit = mapped.unit) } := by
  simp only [dropCache, List.mem_map]
  constructor
  · rintro ⟨old, hold, rfl⟩
    exact ⟨old, hold, rfl⟩
  · rintro ⟨old, hold, rfl⟩
    exact ⟨old, hold, rfl⟩

/-- No token maps to more units than it counts. -/
def Slack (store : DeepStore Facts) : Prop :=
  ∀ token ∈ store.tokens, token.mapped.length ≤ token.unitCount

/-- Each token counts its units, and each of them has its cache row. -/
def TokensBacked (store : DeepStore Facts) : Prop :=
  ∀ token ∈ store.tokens, token.mapped.length = token.unitCount ∧
    ∀ mapped ∈ token.mapped, store.backed token mapped

theorem TokensBacked.slack (h : store.TokensBacked) : store.Slack := by
  intro token htoken
  exact Nat.le_of_eq (h token htoken).1

theorem Slack.dropCache (h : store.Slack) : (store.dropCache doomed).Slack := by
  intro token htoken
  obtain ⟨old, hold, rfl⟩ := mem_dropCache_tokens.mp htoken
  exact Nat.le_trans (List.length_filter_le _ _) (h old hold)

theorem Slack.keepSymbols (h : store.Slack) (symbols : List String) :
    (store.keepSymbols symbols).Slack := by
  intro token htoken
  exact h token (List.mem_filter.mp htoken).1

/-- What is left after `_delete_invalid_deep_materializations` is backed. -/
theorem Slack.deleteInvalid (h : store.Slack) : store.deleteInvalid.TokensBacked := by
  intro token htoken
  simp only [DeepStore.deleteInvalid, List.mem_filter, decide_eq_true_eq] at htoken
  obtain ⟨htoken, hcount⟩ := htoken
  have hslack := h token htoken
  have hle := List.countP_le_length (p := store.backed token) (l := token.mapped)
  have hall : token.mapped.countP (store.backed token) = token.mapped.length := by omega
  exact ⟨by omega, List.countP_eq_length.mp hall⟩

/-! ## Inside a transaction -/

/-- What a transaction has done so far: the doomed rows of the committed store are gone, with
what maps to them, and new rows and tokens bear its number. -/
structure Open (base : DeepStore Facts) (doomed : CacheRow Facts → Prop)
    (rows : List (CacheRow Facts)) (store : DeepStore Facts) : Prop where
  cache : ∀ row, row ∈ store.cache ↔ row ∈ rows ∨ row ∈ base.cache ∧ ¬ doomed row
  keys : (store.cache.map CacheRow.unit).Nodup
  tokens : ∀ token ∈ store.tokens, token.writtenAt = base.clock ∨
    ∃ old ∈ base.tokens, old.writtenAt = token.writtenAt ∧ ∀ mapped ∈ token.mapped,
      ∀ row ∈ base.cache, doomed row → row.unit ≠ mapped.unit
  slack : store.Slack
  clock : store.clock = base.clock

/-- What holds between transactions. -/
structure Committed (store : DeepStore Facts) : Prop where
  keys : (store.cache.map CacheRow.unit).Nodup
  backed : store.TokensBacked
  /-- A cached unit holds the facts that its row was written for. -/
  current : ∀ row ∈ store.cache, store.unitFacts row.unit = row.covered
  cacheClock : ∀ row ∈ store.cache, row.writtenAt < store.clock
  tokenClock : ∀ token ∈ store.tokens, token.writtenAt < store.clock
  /-- A summary is of the build that its unit is of. -/
  builds : ∀ row ∈ store.summaries, ∃ unit ∈ store.units, unit.id = row.unit ∧
    unit.buildVariant = row.buildVariant

variable {base : DeepStore Facts} {doomed doomed' : CacheRow Facts → Prop}
  {rows : List (CacheRow Facts)}

theorem Committed.open (h : base.Committed) : Open base (fun _ => False) [] base where
  cache row := by simp
  keys := h.keys
  tokens token htoken := .inr ⟨token, htoken, rfl, by simp⟩
  slack := h.backed.slack
  clock := rfl

theorem Open.dropCache (h : Open base doomed [] store) (drop : CacheRow Facts → Bool) :
    Open base (fun row => doomed row ∨ drop row) [] (store.dropCache drop) where
  cache row := by
    rw [mem_dropCache_cache, h.cache]
    simp only [List.not_mem_nil, false_or, not_or, Bool.not_eq_true]
    tauto
  keys := (List.filter_sublist.map CacheRow.unit).nodup h.keys
  tokens token htoken := by
    obtain ⟨old, hold, rfl⟩ := mem_dropCache_tokens.mp htoken
    rcases h.tokens old hold with hnew | ⟨first, hfirst, hclock, hmapped⟩
    · exact .inl hnew
    · refine .inr ⟨first, hfirst, hclock, ?_⟩
      intro mapped hkept row hrow hdoomed
      obtain ⟨hmember, hfilter⟩ := List.mem_filter.mp hkept
      rcases Classical.em (doomed row) with hbefore | hbefore
      · exact hmapped mapped hmember row hrow hbefore
      · -- the row is still there when this deletion takes it
        have hstored : row ∈ store.cache := (h.cache row).mpr (.inr ⟨hrow, hbefore⟩)
        have hdrop : drop row = true := hdoomed.resolve_left hbefore
        simp only [Bool.not_eq_true', List.any_eq_false, Bool.and_eq_true, decide_eq_true_eq,
          not_and] at hfilter
        exact hfilter row hstored hdrop
  slack := h.slack.dropCache
  clock := h.clock

/-- Deleting tokens leaves the rest as it is. -/
theorem Open.filterTokens (h : Open base doomed rows store) {keep : Token → Bool}
    {symbols : List String} :
    Open base doomed rows
      { store with tokens := store.tokens.filter keep, symbols := symbols } where
  cache := h.cache
  keys := h.keys
  tokens token htoken := h.tokens token (List.mem_filter.mp htoken).1
  slack token htoken := h.slack token (List.mem_filter.mp htoken).1
  clock := h.clock

theorem Open.deleteInvalid (h : Open base doomed rows store) :
    Open base doomed rows store.deleteInvalid := h.filterTokens

theorem Open.insertCache (h : Open base doomed [] store) {store' : DeepStore Facts}
    (hinsert : store.insertCache rows = some store') : Open base doomed rows store' := by
  unfold DeepStore.insertCache at hinsert
  split at hinsert
  · rename_i hkeys
    cases hinsert
    refine ⟨fun row => ?_, ?_, h.tokens, h.slack, h.clock⟩
    · simp only [List.mem_append, h.cache, List.not_mem_nil, false_or]
    · rw [List.map_append, List.nodup_append]
      refine ⟨hkeys.1, h.keys, ?_⟩
      rintro unit hunit other hother rfl
      obtain ⟨row, hrow, rfl⟩ := List.mem_map.mp hunit
      exact hkeys.2 row hrow hother
  · cases hinsert

theorem Open.insertToken (h : Open base doomed rows store) {store' : DeepStore Facts}
    {publication : Publication} {provenance : Provenance} {mapped : List MappedUnit}
    (hinsert : store.insertToken publication provenance mapped = some store') :
    Open base doomed rows store' := by
  unfold DeepStore.insertToken at hinsert
  split at hinsert
  · cases hinsert
    refine ⟨h.cache, h.keys, ?_, ?_, h.clock⟩
    · intro token htoken
      rcases List.mem_cons.mp htoken with rfl | hold
      · exact .inl h.clock
      · exact h.tokens token hold
    · intro token htoken
      rcases List.mem_cons.mp htoken with rfl | hold
      · simp
      · exact h.slack token hold
  · cases hinsert

theorem Open.of_eq {store' : DeepStore Facts} (h : Open base doomed rows store)
    (hcache : store'.cache = store.cache) (htokens : store'.tokens = store.tokens)
    (hclock : store'.clock = store.clock) : Open base doomed rows store' where
  cache row := by rw [hcache, h.cache]
  keys := by rw [hcache]; exact h.keys
  tokens := by rw [htokens]; exact h.tokens
  slack := by unfold Slack; rw [htokens]; exact h.slack
  clock := hclock.trans h.clock

theorem Open.commit (h : Open base doomed rows store) (hbase : base.Committed)
    (hrows : ∀ row ∈ rows, row.writtenAt = base.clock) (hbacked : store.TokensBacked)
    (hcurrent : ∀ row ∈ store.cache, store.unitFacts row.unit = row.covered)
    (hbuilds : ∀ row ∈ store.summaries, ∃ unit ∈ store.units, unit.id = row.unit ∧
      unit.buildVariant = row.buildVariant) : store.tick.Committed where
  keys := h.keys
  backed := hbacked
  current := hcurrent
  cacheClock row hrow := by
    have hclock : store.tick.clock = base.clock + 1 := congrArg (· + 1) h.clock
    rcases (h.cache row).mp hrow with hnew | ⟨hold, -⟩
    · have := hrows row hnew
      omega
    · have := hbase.cacheClock row hold
      omega
  tokenClock token htoken := by
    have hclock : store.tick.clock = base.clock + 1 := congrArg (· + 1) h.clock
    rcases h.tokens token htoken with hnew | ⟨old, hold, hsame, -⟩
    · omega
    · have := hbase.tokenClock old hold
      omega
  builds := hbuilds

/-- A committed row that is still there was not doomed. -/
theorem Open.not_doomed_of_mem (h : Open base doomed rows store) (hbase : base.Committed)
    (hrows : ∀ row ∈ rows, row.writtenAt = base.clock) {row : CacheRow Facts}
    (hold : row ∈ base.cache) (hrow : row ∈ store.cache) : ¬ doomed row := by
  rcases (h.cache row).mp hrow with hnew | ⟨-, hkept⟩
  · have hstamp := hrows row hnew
    have hclock := hbase.cacheClock row hold
    omega
  · exact hkept

/-- A committed token that is still there maps to no doomed row. -/
theorem Open.not_doomed_of_mapped (h : Open base doomed rows store) (hbase : base.Committed)
    {token : Token} (hold : token ∈ base.tokens) (htoken : token ∈ store.tokens)
    {mapped : MappedUnit} (hmapped : mapped ∈ token.mapped) {row : CacheRow Facts}
    (hrow : row ∈ base.cache) (hdoomed : doomed row) : row.unit ≠ mapped.unit := by
  rcases h.tokens token htoken with hnew | ⟨-, -, -, hunits⟩
  · have hclock := hbase.tokenClock token hold
    omega
  · exact hunits mapped hmapped row hrow hdoomed

theorem backed_iff {token : Token} {mapped : MappedUnit} :
    store.backed token mapped ↔ ∃ row ∈ store.cache, row.unit = mapped.unit ∧
      row.identityHash = mapped.identityHash ∧
      row.closureGenerationId = token.publication.closureGenerationId := by
  simp [backed]

/-! ## Publications -/

/-- An exact cached closure has a row for each of its units. -/
theorem exists_row_of_cachedClosure {generation : String} {identities : List MappedUnit}
    {cached : List (CacheRow Facts)} (hkeys : (store.cache.map CacheRow.unit).Nodup)
    (hnodup : (identities.map MappedUnit.unit).Nodup)
    (h : store.deepCachedClosure generation identities = some cached) :
    ∀ mapped ∈ identities, ∃ row ∈ store.cache, row.unit = mapped.unit ∧
      row.identityHash = mapped.identityHash ∧ row.closureGenerationId = generation := by
  unfold deepCachedClosure at h
  simp only [Option.ite_none_right_eq_some] at h
  obtain ⟨⟨-, hlength, -, hrows⟩, -⟩ := h
  intro mapped hmapped
  -- as many rows as units, of different units among them: each unit has one
  have hrowKeys := (List.filter_sublist (p := fun row : CacheRow Facts =>
    decide (row.closureGenerationId = generation ∧ row.unit ∈ identities.map MappedUnit.unit))).map
      CacheRow.unit |>.nodup hkeys
  have hsubset : ∀ unit ∈ (store.cache.filter fun row => row.closureGenerationId = generation ∧
      row.unit ∈ identities.map MappedUnit.unit).map CacheRow.unit,
      unit ∈ identities.map MappedUnit.unit := by
    intro unit hunit
    obtain ⟨row, hrow, rfl⟩ := List.mem_map.mp hunit
    exact (of_decide_eq_true (List.mem_filter.mp hrow).2).2
  have hperm := (List.subperm_of_subset hrowKeys hsubset).perm_of_length_le
    (Nat.le_of_eq (by rw [List.length_map, List.length_map, hlength]))
  have hunit := hperm.mem_iff.mpr (List.mem_map.mpr ⟨mapped, hmapped, rfl⟩)
  obtain ⟨row, hrow, hsame⟩ := List.mem_map.mp hunit
  obtain ⟨-, hidentity⟩ := hrows row hrow
  obtain ⟨hstored, hgeneration⟩ := List.mem_filter.mp hrow
  refine ⟨row, hstored, hsame, ?_, (of_decide_eq_true hgeneration).1⟩
  obtain ⟨other, hother, hhash⟩ := Option.map_eq_some_iff.mp hidentity
  have hkey : other.unit = row.unit := by simpa using List.find?_some hother
  have heq : other = mapped :=
    List.inj_on_of_nodup_map hnodup (List.mem_of_find?_eq_some hother) hmapped
      (hkey.trans hsame)
  rw [← hhash, heq]

theorem insertToken_spec {store' : DeepStore Facts} {publication : Publication}
    {provenance : Provenance} {mapped : List MappedUnit}
    (h : store.insertToken publication provenance mapped = some store') :
    (mapped.map MappedUnit.unit).Nodup ∧ store'.cache = store.cache ∧
      store'.summaries = store.summaries ∧ store'.units = store.units ∧
      store'.calls = store.calls := by
  unfold insertToken at h
  split at h
  · rename_i hkeys
    cases h
    exact ⟨hkeys.2.2.1, rfl, rfl, rfl, rfl⟩
  · cases h

theorem TokensBacked.insertToken {store' : DeepStore Facts} {publication : Publication}
    {provenance : Provenance} {mapped : List MappedUnit} (hstore : store.TokensBacked)
    (hrows : ∀ unit ∈ mapped, ∃ row ∈ store.cache, row.unit = unit.unit ∧
      row.identityHash = unit.identityHash ∧
      row.closureGenerationId = publication.closureGenerationId)
    (h : store.insertToken publication provenance mapped = some store') :
    store'.TokensBacked := by
  unfold DeepStore.insertToken at h
  split at h
  · cases h
    intro token htoken
    rcases List.mem_cons.mp htoken with rfl | hold
    · exact ⟨rfl, fun unit hunit => backed_iff.mpr (hrows unit hunit)⟩
    · exact hstore token hold
  · cases h

/-! ## Operations -/

/-- What an operation leaves when it commits: which rows it dropped, and whose facts it kept. -/
structure Outcome (base : DeepStore Facts) (doomed : CacheRow Facts → Prop)
    (store : DeepStore Facts) : Prop where
  committed : ∃ rows final, store = final.tick ∧ Open base doomed rows final ∧
    (∀ row ∈ rows, row.writtenAt = base.clock ∧ store.unitFacts row.unit = row.covered) ∧
    final.TokensBacked
  builds : ∀ row ∈ store.summaries, ∃ unit ∈ store.units, unit.id = row.unit ∧
    unit.buildVariant = row.buildVariant

theorem Outcome.commit (h : Outcome base doomed store) (hbase : base.Committed)
    (hkept : ∀ row ∈ base.cache, ¬ doomed row →
      store.unitFacts row.unit = base.unitFacts row.unit) : store.Committed := by
  obtain ⟨rows, final, rfl, hopen, hrows, hbacked⟩ := h.committed
  apply hopen.commit hbase (fun row hrow => (hrows row hrow).1) hbacked _ h.builds
  intro row hrow
  rcases (hopen.cache row).mp hrow with hnew | ⟨hold, hdoomed⟩
  · exact (hrows row hnew).2
  · rw [← hbase.current row hold]
    exact hkept row hold hdoomed

theorem Outcome.not_mem_cache (h : Outcome base doomed store) (hbase : base.Committed)
    {row : CacheRow Facts} (hrow : row ∈ base.cache) (hdoomed : doomed row) :
    row ∉ store.cache := by
  obtain ⟨rows, final, rfl, hopen, hrows, -⟩ := h.committed
  intro hstill
  exact hopen.not_doomed_of_mem hbase (fun row hrow => (hrows row hrow).1) hrow hstill hdoomed

theorem Outcome.not_mem_tokens (h : Outcome base doomed store) (hbase : base.Committed)
    {token : Token} {mapped : MappedUnit} (htoken : token ∈ base.tokens)
    (hmapped : mapped ∈ token.mapped)
    (hdoomed : ∀ row ∈ base.cache, row.unit = mapped.unit → doomed row) :
    token ∉ store.tokens := by
  obtain ⟨rows, final, rfl, hopen, -, -⟩ := h.committed
  intro hstill
  obtain ⟨row, hrow, hunit, -⟩ := backed_iff.mp ((hbase.backed token htoken).2 mapped hmapped)
  exact hopen.not_doomed_of_mapped hbase htoken hstill hmapped hrow (hdoomed row hrow hunit) hunit

/-! ### Overlays -/

theorem insertCache_spec {store' : DeepStore Facts}
    (h : store.insertCache rows = some store') :
    store'.summaries = store.summaries ∧ store'.units = store.units ∧
      store'.calls = store.calls := by
  unfold insertCache at h
  split at h
  · cases h
    exact ⟨rfl, rfl, rfl⟩
  · cases h

theorem overlay_summary_unit {overlay : Overlay Facts} {row : SummaryRow Facts}
    (hrow : row ∈ overlay.summaries) : ∃ unit ∈ overlay.units, unit.id = row.unit ∧
      unit.buildVariant = row.buildVariant := by
  simp only [Overlay.summaries, List.mem_flatMap, List.mem_map] at hrow
  obtain ⟨unit, hunit, function, -, rfl⟩ := hrow
  exact ⟨unit, hunit, rfl, rfl⟩

theorem overlay_outcome {overlay : Overlay Facts} (hbase : base.Committed)
    (h : base.applyDeepOverlay overlay = some store) :
    Outcome base (fun row => row.unit ∈ overlay.staleCallerUnits base ∨
        row.unit ∈ overlay.unitIds) store ∧
      store.summaries = (base.summaries.filter (·.unit ∉ overlay.unitIds)) ++ overlay.summaries ∧
      store.calls = base.calls := by
  unfold applyDeepOverlay at h
  rw [Option.ite_none_right_eq_some] at h
  obtain ⟨⟨-, hunchanged⟩, h⟩ := h
  obtain ⟨cached, hcached, h⟩ := Option.bind_eq_some_iff.mp h
  obtain ⟨final, hfinal, rfl⟩ := Option.map_eq_some_iff.mp h
  have hdropped : Open base (fun row => row.unit ∈ overlay.staleCallerUnits base ∨
      row.unit ∈ overlay.unitIds) [] (overlay.replaceFacts base) := by
    have hdrop := (hbase.open.dropCache fun row =>
      row.unit ∈ overlay.staleCallerUnits base).dropCache fun row => row.unit ∈ overlay.unitIds
    have hsame : Open base _ [] (overlay.replaceFacts base) := hdrop.of_eq rfl rfl rfl
    simpa using hsame
  have hopen := (hdropped.insertCache hcached).insertToken hfinal
  obtain ⟨hsummaries, hunits, hcalls⟩ := insertCache_spec hcached
  obtain ⟨-, -, hsummaries', hunits', hcalls'⟩ := insertToken_spec hfinal
  have hfacts : final.summaries =
      (base.summaries.filter (·.unit ∉ overlay.unitIds)) ++ overlay.summaries := by
    rw [hsummaries', hsummaries]
    rfl
  refine ⟨⟨⟨_, final.deleteInvalid, rfl, hopen.deleteInvalid, ?_, hopen.slack.deleteInvalid⟩, ?_⟩,
    hfacts, (hcalls'.trans hcalls)⟩
  · intro row hrow
    obtain ⟨unit, hunit, rfl⟩ := List.mem_map.mp hrow
    refine ⟨rfl, ?_⟩
    change final.summaries.filter _ = (overlay.replaceFacts base).summaries.filter _
    rw [hsummaries', hsummaries]
  · intro row hrow
    change row ∈ final.summaries at hrow
    change ∃ unit ∈ final.units, _
    rw [hunits', hunits]
    rw [hfacts] at hrow
    rcases List.mem_append.mp hrow with hold | hnew
    · exact hbase.builds row (List.mem_filter.mp hold).1
    · obtain ⟨unit, hunit, hid, hvariant⟩ := overlay_summary_unit hnew
      obtain ⟨stored, hstored, hid', hvariant', -⟩ := hunchanged unit hunit
      exact ⟨stored, hstored, hid'.trans hid, hvariant'.trans hvariant⟩

/-! ### Publications of what is there -/

theorem alias_outcome {publication : Publication} {identities : List MappedUnit}
    (hbase : base.Committed) (h : base.publishAlias publication identities = some store) :
    Outcome base (fun _ => False) store ∧ store.summaries = base.summaries ∧
      store.calls = base.calls := by
  unfold publishAlias at h
  obtain ⟨cached, hcached, h⟩ := Option.bind_eq_some_iff.mp h
  obtain ⟨first, -, h⟩ := Option.bind_eq_some_iff.mp h
  rw [Option.ite_none_right_eq_some] at h
  obtain ⟨-, h⟩ := h
  obtain ⟨final, hfinal, rfl⟩ := Option.map_eq_some_iff.mp h
  obtain ⟨hnodup, -, hsummaries, hunits, hcalls⟩ := insertToken_spec hfinal
  have hrows := exists_row_of_cachedClosure hbase.keys hnodup hcached
  have hopen := hbase.open.insertToken hfinal
  have hbacked := hbase.backed.insertToken hrows hfinal
  refine ⟨⟨⟨[], final, rfl, hopen, by simp, hbacked⟩, ?_⟩, hsummaries, hcalls⟩
  change ∀ row ∈ final.summaries, ∃ unit ∈ final.units, _
  rw [hsummaries, hunits]
  exact hbase.builds

theorem fullProfile_outcome {publication : Publication} {provenance : Provenance}
    {identities : List MappedUnit} (hbase : base.Committed)
    (h : base.publishFullProfile publication provenance identities = some store) :
    Outcome base (fun row => row.unit ∈ identities.map MappedUnit.unit) store ∧
      store.summaries = base.summaries ∧ store.calls = base.calls := by
  unfold publishFullProfile at h
  rw [Option.ite_none_right_eq_some] at h
  obtain ⟨-, h⟩ := h
  obtain ⟨cached, hcached, h⟩ := Option.bind_eq_some_iff.mp h
  obtain ⟨final, hfinal, h⟩ := Option.bind_eq_some_iff.mp h
  obtain ⟨closure, hclosure, rfl⟩ := Option.map_eq_some_iff.mp h
  have hdropped : Open base (fun row => row.unit ∈ identities.map MappedUnit.unit) []
      (base.dropCache fun row => row.unit ∈ identities.map MappedUnit.unit) := by
    simpa using hbase.open.dropCache fun row => row.unit ∈ identities.map MappedUnit.unit
  have hcachedOpen := hdropped.insertCache hcached
  have hopen := hcachedOpen.deleteInvalid.insertToken hfinal
  obtain ⟨hsummaries, hunits, hcalls⟩ := insertCache_spec hcached
  obtain ⟨hnodup, hcache, hsummaries', hunits', hcalls'⟩ := insertToken_spec hfinal
  have hfacts : final.summaries = base.summaries := hsummaries'.trans hsummaries
  have hrows := exists_row_of_cachedClosure hopen.keys hnodup hclosure
  rw [hcache] at hrows
  have hbacked := hcachedOpen.slack.deleteInvalid.insertToken hrows hfinal
  refine ⟨⟨⟨_, final, rfl, hopen, ?_, hbacked⟩, ?_⟩, hfacts, hcalls'.trans hcalls⟩
  · intro row hrow
    simp only [fullProfileRows, List.mem_flatMap, List.mem_map] at hrow
    obtain ⟨identity, -, state, -, rfl⟩ := hrow
    refine ⟨rfl, ?_⟩
    change final.summaries.filter _ = base.summaries.filter _
    rw [hfacts]
  · change ∀ row ∈ final.summaries, ∃ unit ∈ final.units, _
    have hstates : final.units = base.units := hunits'.trans hunits
    rw [hfacts, hstates]
    exact hbase.builds

/-! ### Index runs and removals -/

theorem index_outcome {run : IndexRun Facts} (hbase : base.Committed)
    (h : base.applyIngestion run = some store) :
    Outcome base (fun row => row.unit ∈ run.replacedUnits base ∨
        row.buildVariant = run.buildVariant ∧ row.unit ∈ run.overrideUnits base) store ∧
      store.summaries = run.refresh base
        ((base.summaries.filter (·.unit ∉ run.replacedUnits base)) ++ run.summaries) ∧
      store.calls = (base.calls.filter (·.buildVariant ≠ run.buildVariant)) ++ run.calls := by
  unfold applyIngestion at h
  rw [Option.ite_none_right_eq_some] at h
  obtain ⟨⟨hunits, -, hchanged, hsummaries, -⟩, h⟩ := h
  cases h
  have hstaged : Open base (fun row => row.unit ∈ run.replacedUnits base) []
      (run.stage base) := by
    have hdrop := hbase.open.dropCache fun row => row.unit ∈ run.replacedUnits base
    have hsame : Open base _ [] (run.stage base) := hdrop.of_eq rfl rfl rfl
    simpa using hsame
  have hdropped := hstaged.deleteInvalid.dropCache fun row =>
    row.buildVariant = run.buildVariant ∧ row.unit ∈ run.overrideUnits base
  simp only [decide_eq_true_eq] at hdropped
  refine ⟨⟨⟨[], _, rfl, ?_, by simp, ?_⟩, ?_⟩, rfl, rfl⟩
  · apply Open.deleteInvalid
    apply Open.filterTokens
    exact hdropped.of_eq rfl rfl rfl
  · apply Slack.deleteInvalid
    apply Slack.keepSymbols
    exact hdropped.slack
  · intro row hrow
    change row ∈ run.refresh base
      ((base.summaries.filter (·.unit ∉ run.replacedUnits base)) ++ run.summaries) at hrow
    change ∃ unit ∈ (base.units.filter (·.id ∉ run.replacedUnits base)) ++ run.units, _
    obtain ⟨before, hbefore, hsame⟩ : ∃ before ∈
        (base.summaries.filter (·.unit ∉ run.replacedUnits base)) ++ run.summaries,
        before.unit = row.unit ∧ before.buildVariant = row.buildVariant := by
      obtain ⟨before, hbefore, rfl⟩ := List.mem_map.mp hrow
      refine ⟨before, hbefore, ?_⟩
      split <;> exact ⟨rfl, rfl⟩
    rw [← hsame.1, ← hsame.2]
    rcases List.mem_append.mp hbefore with hkept | hnew
    · obtain ⟨hstored, hunit⟩ := List.mem_filter.mp hkept
      obtain ⟨unit, hmem, hid, hvariant⟩ := hbase.builds before hstored
      refine ⟨unit, List.mem_append_left _ (List.mem_filter.mpr ⟨hmem, ?_⟩), hid, hvariant⟩
      rw [hid]
      exact hunit
    · obtain ⟨hin, hvariant⟩ := hsummaries before hnew
      obtain ⟨unit, hmem, hid⟩ := List.mem_map.mp (hchanged _ hin)
      exact ⟨unit, List.mem_append_right _ hmem, hid, (hunits unit hmem).2.trans hvariant.symm⟩

/-- The units of a build. -/
def unitsOf (store : DeepStore Facts) (variant : String) : List String :=
  (store.units.filter (·.buildVariant = variant)).map UnitRow.id

theorem remove_outcome {variant : String} {symbols : List String} (hbase : base.Committed) :
    Outcome base (fun row => row.unit ∈ base.unitsOf variant)
        (base.removeBuildVariant variant symbols) ∧
      (base.removeBuildVariant variant symbols).summaries =
        base.summaries.filter (·.unit ∉ base.unitsOf variant) := by
  have hdropped : Open base (fun row => row.unit ∈ base.unitsOf variant) []
      (base.dropCache fun row => row.unit ∈ base.unitsOf variant) := by
    simpa using hbase.open.dropCache fun row => row.unit ∈ base.unitsOf variant
  refine ⟨⟨⟨[], _, rfl, ?_, by simp, ?_⟩, ?_⟩, rfl⟩
  · apply Open.deleteInvalid
    apply Open.filterTokens
    exact hdropped.of_eq rfl rfl rfl
  · apply Slack.deleteInvalid
    apply Slack.keepSymbols
    exact hdropped.slack
  · intro row hrow
    change row ∈ base.summaries.filter (·.unit ∉ base.unitsOf variant) at hrow
    change ∃ unit ∈ base.units.filter (·.buildVariant ≠ variant), _
    obtain ⟨hstored, hkept⟩ := List.mem_filter.mp hrow
    obtain ⟨unit, hunit, hid, hvariant⟩ := hbase.builds row hstored
    refine ⟨unit, List.mem_filter.mpr ⟨hunit, ?_⟩, hid, hvariant⟩
    have hother : unit.buildVariant ≠ variant := by
      intro hsame
      have hremoved : row.unit ∈ base.unitsOf variant := by
        rw [← hid]
        exact List.mem_map.mpr ⟨unit, List.mem_filter.mpr ⟨hunit, by simpa using hsame⟩, rfl⟩
      simp [hremoved] at hkept
    simpa using hother

end DeepStore

/-! ## What an operation replaces -/

section Operations

variable {Facts : Type}

/-- The units whose deep facts an operation replaces, by their rows or by solving again. -/
def Operation.ReplacesUnit (store : DeepStore Facts) : Operation Facts → String → Prop
  | .index run, unit => unit ∈ run.replacedUnits store ∨
      ∃ row ∈ store.summaries, row.unit = unit ∧ run.refreshes store row
  | .overlay deep, unit => unit ∈ deep.unitIds
  | .remove variant _, unit => unit ∈ store.unitsOf variant
  | .publishAlias .., _ | .fullProfile .., _ => False

/-- The functions of a build whose facts an operation replaces in some unit. -/
def Operation.ReplacesFunction (store : DeepStore Facts) :
    Operation Facts → String → String → Prop
  | .index run, variant, function => variant = run.buildVariant ∧
      function ∈ run.affectedFunctions store
  | .overlay deep, variant, function => function ∈ deep.changedFunctions variant ∨
      ∃ row ∈ store.summaries, row.unit ∈ deep.unitIds ∧ row.buildVariant = variant ∧
        row.function = function
  | .remove removed _, variant, function => variant = removed ∧
      ∃ row ∈ store.summaries, row.buildVariant = variant ∧ row.function = function
  | .publishAlias .., _, _ | .fullProfile .., _, _ => False

/-- The facts of the unit, or of a function that it calls before or after the operation, are
replaced. -/
def Disturbed (store : DeepStore Facts) (operation : Operation Facts) (after : DeepStore Facts)
    (unit : String) : Prop :=
  operation.ReplacesUnit store unit ∨ ∃ row ∈ store.summaries, row.unit = unit ∧
    ∃ function, operation.ReplacesFunction store row.buildVariant function ∧
      (Relation.TransGen (Calls store.calls row.buildVariant) row.function function ∨
        Relation.TransGen (Calls after.calls row.buildVariant) row.function function)

/-- Neither a cache row nor a token that covered the old facts of a disturbed unit is left. -/
def NoSurvivors (store : DeepStore Facts) (operation : Operation Facts)
    (after : DeepStore Facts) : Prop :=
  ∀ unit, Disturbed store operation after unit →
    (∀ row ∈ store.cache, row.unit = unit → row ∉ after.cache) ∧
      ∀ token ∈ store.tokens, (∃ mapped ∈ token.mapped, mapped.unit = unit) →
        token ∉ after.tokens

def Operation.materializationId : Operation Facts → Option String
  | .overlay deep => some deep.publication.materializationId
  | .publishAlias publication _ | .fullProfile publication _ _ => some publication.materializationId
  | .index _ | .remove .. => none

/-- The store without a token. -/
def DeepStore.withoutToken (store : DeepStore Facts) (id : String) : DeepStore Facts :=
  { store with tokens := store.tokens.filter (·.id ≠ id) }

/-- What is claimed of a state. -/
structure DeepStore.Sound (store : DeepStore Facts) : Prop where
  backed : store.TokensBacked
  current : ∀ row ∈ store.cache, store.unitFacts row.unit = row.covered
  /-- A publication is not refused for the id of a token that lost a cache row. -/
  republished : ∀ operation : Operation Facts, ∀ id, operation.materializationId = some id →
    (∀ token ∈ store.tokens, token.id = id → ∃ mapped ∈ token.mapped,
      ¬ store.backed token mapped) →
    ((store.withoutToken id).apply operation).isSome → (store.apply operation).isSome

theorem DeepStore.Committed.sound {store : DeepStore Facts} (h : store.Committed) :
    store.Sound where
  backed := h.backed
  current := h.current
  republished operation id _ hlost happly := by
    have hnone : ∀ token ∈ store.tokens, token.id ≠ id := by
      intro token htoken hid
      obtain ⟨mapped, hmapped, hrow⟩ := hlost token htoken hid
      exact hrow ((h.backed token htoken).2 mapped hmapped)
    have hsame : store.withoutToken id = store := by
      unfold DeepStore.withoutToken
      rw [List.filter_eq_self.mpr (by simpa using hnone)]
    rwa [hsame] at happly

/-! ## When the reverse callers are enough -/

/-- What an index run starts from: the functions summarised in replaced units, before and after
it, and the owners of callsites whose override candidates change. -/
def IndexRun.Seed (run : IndexRun Facts) (store : DeepStore Facts) (function : String) : Prop :=
  function ∈ run.replacedFunctions store ∨ ∃ call ∈ run.changedCalls store, call.owner = function

/-- The inputs on which an operation drops all that it makes stale.

An overlay: a unit outside it that is cached and calls a function of its units also calls one
of the overlay's functions from a function that the overlay does not have.

An index run: no function of a cached unit that the run neither replaces nor drops for its
override candidates is or calls, over the calls before and after, one that the run starts from. -/
def Operation.Spares (store : DeepStore Facts) : Operation Facts → Prop
  | .overlay deep => ∀ cached ∈ store.cache, cached.unit ∉ deep.unitIds →
      (∃ row ∈ store.summaries, row.unit = cached.unit ∧ ∃ function,
        (function ∈ deep.changedFunctions row.buildVariant ∨
          ∃ old ∈ store.summaries, old.unit ∈ deep.unitIds ∧
            old.buildVariant = row.buildVariant ∧ old.function = function) ∧
        Relation.TransGen (Calls store.calls row.buildVariant) row.function function) →
      ∃ row ∈ store.summaries, row.unit = cached.unit ∧
        row.function ∉ deep.changedFunctions row.buildVariant ∧
        ∃ function ∈ deep.changedFunctions row.buildVariant,
          Relation.TransGen (Calls store.calls row.buildVariant) row.function function
  | .index run => ∀ cached ∈ store.cache, cached.unit ∉ run.replacedUnits store →
      ¬ (cached.buildVariant = run.buildVariant ∧ cached.unit ∈ run.overrideUnits store) →
      ∀ row ∈ store.summaries, row.unit = cached.unit → row.buildVariant = run.buildVariant →
        ∀ function, run.Seed store function →
          ¬ Relation.ReflTransGen (Calls (store.calls ++ run.calls) run.buildVariant)
              row.function function
  | .publishAlias .. | .fullProfile .. | .remove .. => True

/-- The cache rows that an operation drops. -/
def Operation.Drops (store : DeepStore Facts) : Operation Facts → CacheRow Facts → Prop
  | .overlay deep, row => row.unit ∈ deep.staleCallerUnits store ∨ row.unit ∈ deep.unitIds
  | .index run, row => row.unit ∈ run.replacedUnits store ∨
      row.buildVariant = run.buildVariant ∧ row.unit ∈ run.overrideUnits store
  | .remove variant _, row => row.unit ∈ store.unitsOf variant
  | .fullProfile _ _ identities, row => row.unit ∈ identities.map MappedUnit.unit
  | .publishAlias .., _ => False

variable {store after : DeepStore Facts} {operation : Operation Facts}

theorem outcome (hstore : store.Committed) (h : store.apply operation = some after) :
    DeepStore.Outcome store (operation.Drops store) after := by
  cases operation with
  | index run => exact (DeepStore.index_outcome hstore h).1
  | overlay deep => exact (DeepStore.overlay_outcome hstore h).1
  | publishAlias publication identities => exact (DeepStore.alias_outcome hstore h).1
  | fullProfile publication provenance identities =>
      exact (DeepStore.fullProfile_outcome hstore h).1
  | remove variant symbols =>
      cases h
      exact (DeepStore.remove_outcome hstore).1

theorem leads_mono {calls calls' : List CallRow} {variant caller callee : String}
    (hsubset : calls ⊆ calls')
    (hpath : Relation.ReflTransGen (Calls calls variant) caller callee) :
    Relation.ReflTransGen (Calls calls' variant) caller callee := by
  have hle : Calls calls variant ≤ Calls calls' variant := fun _ _ h => h.mono hsubset
  exact Relation.ReflTransGen.mono hle _ _ hpath

/-- Whatever an index run solves again is or calls something that the run starts from. -/
theorem affected_leads {run : IndexRun Facts} {function : String}
    (h : function ∈ run.affectedFunctions store) : ∃ seed, run.Seed store seed ∧
      Relation.ReflTransGen (Calls (store.calls ++ run.calls) run.buildVariant) function seed := by
  simp only [IndexRun.affectedFunctions] at h
  generalize hreplaced : (store.summaries.filter (·.unit ∈ run.replacedUnits store)).map
    SummaryRow.function = replaced at h
  have hseed : ∀ function, function ∈ replaced ∨ function ∈ run.summaries.map SummaryRow.function →
      run.Seed store function := by
    intro function hfunction
    left
    rw [IndexRun.replacedFunctions, List.map_append, hreplaced]
    exact List.mem_append.mpr hfunction
  -- what the run tracked, staged or found by its override candidates
  have hdirect : ∀ function, function ∈ replaced ++
        reverseSummaryCallers store.calls run.buildVariant replaced ++
        run.summaries.map SummaryRow.function ++ run.overrideFunctions store →
      ∃ seed, run.Seed store seed ∧
        Relation.ReflTransGen (Calls (store.calls ++ run.calls) run.buildVariant) function
          seed := by
    intro function hfunction
    simp only [List.mem_append, IndexRun.overrideFunctions, mem_reverseSummaryCallers] at hfunction
    rcases hfunction with ((hmem | ⟨-, callee, hcallee, hpath⟩) | hmem) |
      hmem | ⟨-, callee, hcallee, hpath⟩
    · exact ⟨function, hseed function (.inl hmem), .refl⟩
    · exact ⟨callee, hseed callee (.inl hcallee), leads_mono (List.subset_append_left _ _) hpath⟩
    · exact ⟨function, hseed function (.inr hmem), .refl⟩
    · exact ⟨function, .inr (List.mem_map.mp hmem), .refl⟩
    · exact ⟨callee, .inr (List.mem_map.mp hcallee), leads_mono (List.subset_append_right _ _) hpath⟩
  rcases List.mem_append.mp h with hmem | hmem
  · exact hdirect function hmem
  · obtain ⟨-, callee, hcallee, hpath⟩ := mem_reverseSummaryCallers.mp hmem
    obtain ⟨seed, hwhich, hrest⟩ := hdirect callee hcallee
    exact ⟨seed, hwhich, (leads_mono (List.subset_append_right _ _) hpath).trans hrest⟩

/-- The functions of a cached unit that a sparing index run leaves are not solved again. -/
theorem not_refreshes_of_spares {run : IndexRun Facts} (hspares : (Operation.index run).Spares store)
    {cached : CacheRow Facts} (hcached : cached ∈ store.cache)
    (hkept : ¬ (Operation.index run).Drops store cached) {row : SummaryRow Facts}
    (hrow : row ∈ store.summaries) (hunit : row.unit = cached.unit) :
    run.refreshes store row = false := by
  simp only [Operation.Drops, not_or] at hkept
  simp only [IndexRun.refreshes, decide_eq_false_iff_not]
  rintro ⟨hvariant, haffected⟩
  obtain ⟨seed, hseed, hpath⟩ := affected_leads haffected
  exact hspares cached hcached hkept.1 hkept.2 row hrow hunit hvariant seed hseed hpath

/-! ## Steps -/

theorem spares_drops (hstore : store.Committed) (hspares : operation.Spares store)
    (h : store.apply operation = some after) {cached : CacheRow Facts}
    (hcached : cached ∈ store.cache) (hdisturbed : Disturbed store operation after cached.unit) :
    operation.Drops store cached := by
  cases operation with
  | index run =>
      by_contra hkept
      have hcalls := (DeepStore.index_outcome hstore h).2.2
      rcases hdisturbed with (hreplaced | ⟨row, hrow, hunit, hrefresh⟩) |
        ⟨row, hrow, hunit, function, ⟨hvariant, haffected⟩, hpath⟩
      · exact hkept (.inl hreplaced)
      · rw [not_refreshes_of_spares hspares hcached hkept hrow hunit] at hrefresh
        cases hrefresh
      · obtain ⟨seed, hseed, hrest⟩ := affected_leads haffected
        simp only [Operation.Drops, not_or] at hkept
        refine hspares cached hcached hkept.1 hkept.2 row hrow hunit hvariant seed hseed ?_
        rw [hvariant] at hpath
        rcases hpath with hpath | hpath
        · exact (leads_mono (List.subset_append_left _ _) hpath.to_reflTransGen).trans hrest
        · have hsubset : after.calls ⊆ store.calls ++ run.calls := by
            rw [hcalls]
            intro call hcall
            rcases List.mem_append.mp hcall with hcall | hcall
            · exact List.mem_append_left _ (List.mem_filter.mp hcall).1
            · exact List.mem_append_right _ hcall
          exact (leads_mono hsubset hpath.to_reflTransGen).trans hrest
  | overlay deep =>
      by_cases hin : cached.unit ∈ deep.unitIds
      · exact .inr hin
      left
      have hcalls := (DeepStore.overlay_outcome hstore h).2.2
      rcases hdisturbed with hreplaced | ⟨row, hrow, hunit, function, hfunction, hpath⟩
      · exact absurd hreplaced hin
      rw [hcalls, or_self] at hpath
      obtain ⟨caller, hcaller, hunit', hnew, changed, hchanged, hleads⟩ :=
        hspares cached hcached hin ⟨row, hrow, hunit, function, hfunction, hpath⟩
      simp only [Overlay.staleCallerUnits, List.mem_filter, List.mem_map, decide_eq_true_eq]
      refine ⟨⟨caller, ⟨hcaller, ?_⟩, hunit'⟩, hin⟩
      exact mem_reverseSummaryCallers.mpr ⟨hnew, changed, hchanged, hleads.to_reflTransGen⟩
  | publishAlias publication identities =>
      rcases hdisturbed with hreplaced | ⟨row, -, -, function, hfunction, -⟩
      · exact hreplaced
      · exact hfunction
  | fullProfile publication provenance identities =>
      rcases hdisturbed with hreplaced | ⟨row, -, -, function, hfunction, -⟩
      · exact hreplaced.elim
      · exact hfunction.elim
  | remove variant symbols =>
      rcases hdisturbed with hreplaced | ⟨row, hrow, hunit, -, ⟨hvariant, -⟩, -⟩
      · exact hreplaced
      · obtain ⟨unit, hmem, hid, hbuild⟩ := hstore.builds row hrow
        refine List.mem_map.mpr ⟨unit, List.mem_filter.mpr ⟨hmem, ?_⟩, hid.trans hunit⟩
        simpa using hbuild.trans hvariant

theorem unitFacts_append {unit : String} {kept added : List (SummaryRow Facts)}
    {replaced : List String} (hunit : unit ∉ replaced) (hadded : ∀ row ∈ added, row.unit ∈ replaced) :
    ((kept.filter (·.unit ∉ replaced)) ++ added).filter (·.unit = unit) =
      kept.filter (·.unit = unit) := by
  have hnone : added.filter (·.unit = unit) = [] := by
    rw [List.filter_eq_nil_iff]
    intro row hrow hsame
    exact hunit (of_decide_eq_true hsame ▸ hadded row hrow)
  rw [List.filter_append, hnone, List.append_nil, List.filter_filter]
  apply List.filter_congr
  intro row _
  by_cases hsame : row.unit = unit
  · simp [hsame, hunit]
  · simp [hsame]

/-- The cached units that a sparing operation leaves keep their facts. -/
theorem unitFacts_of_spares (hstore : store.Committed) (hspares : operation.Spares store)
    (h : store.apply operation = some after) {cached : CacheRow Facts}
    (hcached : cached ∈ store.cache) (hkept : ¬ operation.Drops store cached) :
    after.unitFacts cached.unit = store.unitFacts cached.unit := by
  unfold DeepStore.unitFacts
  cases operation with
  | index run =>
      have hsummaries := (DeepStore.index_outcome hstore h).2.1
      have hstreams : run.Streams := by
        simp only [DeepStore.apply, DeepStore.applyIngestion, Option.ite_none_right_eq_some] at h
        exact h.1
      have hunit : cached.unit ∉ run.replacedUnits store := fun hin => hkept (.inl hin)
      have hadded : ∀ row ∈ run.summaries, row.unit ∈ run.replacedUnits store := fun row hrow =>
        List.mem_append_right _ (hstreams.2.2.2.1 row hrow).1
      rw [hsummaries]
      have hfilter : (run.refresh store (store.summaries.filter (·.unit ∉ run.replacedUnits store) ++
            run.summaries)).filter (·.unit = cached.unit) =
          run.refresh store ((store.summaries.filter (·.unit ∉ run.replacedUnits store) ++
            run.summaries).filter (·.unit = cached.unit)) := by
        unfold IndexRun.refresh
        rw [List.filter_map]
        congr 1
        apply List.filter_congr
        intro row _
        simp only [Function.comp]
        split <;> rfl
      rw [hfilter, unitFacts_append hunit hadded]
      unfold IndexRun.refresh
      rw [List.map_congr_left (g := id), List.map_id]
      intro row hrow
      obtain ⟨hstored, hsame⟩ := List.mem_filter.mp hrow
      rw [not_refreshes_of_spares hspares hcached hkept hstored (of_decide_eq_true hsame)]
      rfl
  | overlay deep =>
      have hsummaries := (DeepStore.overlay_outcome hstore h).2.1
      rw [hsummaries]
      apply unitFacts_append fun hin => hkept (.inr hin)
      intro row hrow
      obtain ⟨unit, hunit, hid, -⟩ := DeepStore.overlay_summary_unit hrow
      exact List.mem_map.mpr ⟨unit, hunit, hid⟩
  | publishAlias publication identities =>
      rw [(DeepStore.alias_outcome hstore h).2.1]
  | fullProfile publication provenance identities =>
      rw [(DeepStore.fullProfile_outcome hstore h).2.1]
  | remove variant symbols =>
      cases h
      rw [DeepStore.remove_outcome hstore |>.2]
      have hnone : ∀ row ∈ ([] : List (SummaryRow Facts)), row.unit ∈ store.unitsOf variant := by
        simp
      have happend := @unitFacts_append _ _ store.summaries _ _ hkept hnone
      simpa using happend

theorem apply_committed (hstore : store.Committed) (hspares : operation.Spares store)
    (h : store.apply operation = some after) : after.Committed := by
  apply (outcome hstore h).commit hstore
  intro row hrow hkept
  exact unitFacts_of_spares hstore hspares h hrow hkept

theorem noSurvivors_of_spares (hstore : store.Committed) (hspares : operation.Spares store)
    (h : store.apply operation = some after) : NoSurvivors store operation after := by
  intro unit hdisturbed
  have hdrops : ∀ row ∈ store.cache, row.unit = unit → operation.Drops store row := by
    rintro row hrow rfl
    exact spares_drops hstore hspares h hrow hdisturbed
  constructor
  · intro row hrow hunit
    exact (outcome hstore h).not_mem_cache hstore hrow (hdrops row hrow hunit)
  · rintro token htoken ⟨mapped, hmapped, rfl⟩
    exact (outcome hstore h).not_mem_tokens hstore htoken hmapped hdrops

/-! ## Runs -/

/-- The states that operations lead to, each refused, interrupted or committed. -/
inductive Reachable : DeepStore Facts → Prop where
  | initial : Reachable {}
  | attempt {store : DeepStore Facts} (run : Reachable store) (operation : Operation Facts)
      (interrupted : Bool) : Reachable (store.attempt operation interrupted)

/-- The states of the runs whose operations all spare what they leave. -/
inductive SparingRun : DeepStore Facts → Prop where
  | initial : SparingRun {}
  | attempt {store : DeepStore Facts} (run : SparingRun store) (operation : Operation Facts)
      (interrupted : Bool) (spares : interrupted = false → operation.Spares store) :
      SparingRun (store.attempt operation interrupted)

theorem committed_initial : ({} : DeepStore Facts).Committed where
  keys := List.nodup_nil
  backed _ h := by cases h
  current _ h := by cases h
  cacheClock _ h := by cases h
  tokenClock _ h := by cases h
  builds _ h := by cases h

theorem SparingRun.committed (h : SparingRun store) : store.Committed := by
  induction h with
  | initial => exact committed_initial
  | @attempt store _ operation interrupted spares ih =>
      cases interrupted with
      | true => exact ih
      | false =>
          simp only [DeepStore.attempt, Bool.false_eq_true, if_false]
          cases happly : store.apply operation with
          | none => exact ih
          | some after => exact apply_committed ih (spares rfl) happly

/-- Along the runs that spare what they leave, no token or cache row outlives its facts. -/
theorem deepTokens_sound (h : SparingRun store) : store.Sound ∧
    ∀ (operation : Operation Facts) (after : DeepStore Facts), operation.Spares store →
      store.apply operation = some after → NoSurvivors store operation after :=
  ⟨h.committed.sound, fun _ _ hspares happly => noSurvivors_of_spares h.committed hspares happly⟩

end Operations

section Example

/-- Two units with complete facts: `f` in `A` calls `g` in `B`. -/
def unitRow (id content : String) : UnitRow :=
  ⟨id, "default", "configuration " ++ id, "command", content, [], true,
    ⟨true, true, true, true⟩, "analyzer"⟩

def callerToCallee : CallRow := ⟨"callsite", "f", "A", "g", "default", false, []⟩

def firstIndex : IndexRun String :=
  { buildVariant := "default", current := ["A", "B"], changed := ["A", "B"],
    units := [unitRow "A" "a", unitRow "B" "b"],
    summaries := [⟨"A", "default", "f", "local"⟩, ⟨"B", "default", "g", "local"⟩],
    calls := [callerToCallee], symbols := ["f", "g"], solve := fun _ => "first" }

/-- `B` is edited, and `f` is solved with the new `g`. -/
def secondIndex : IndexRun String :=
  { buildVariant := "default", current := ["A", "B"], changed := ["B"],
    units := [unitRow "B" "edited"], summaries := [⟨"B", "default", "g", "local"⟩],
    calls := [callerToCallee], symbols := ["f", "g"], solve := fun _ => "second" }

/-- A request for `f` with `max_tus = 1`. -/
def callerOnly : Operation String :=
  .fullProfile ⟨"token", "f", "generation", ["default"], false, 2, 1, "max_tus"⟩
    ⟨"analyzer", "unknown", "cpp-context-clang-facts", 5, 25, "full"⟩ [⟨"A", "identity", 0⟩]

def callerStore : DeepStore String :=
  (DeepStore.attempt {} (.index firstIndex) false).attempt callerOnly false

theorem callerStore_sound : callerStore.Sound :=
  (deepTokens_sound (.attempt (.attempt .initial (.index firstIndex) false
    fun _ cached hcached => by cases hcached) callerOnly false fun _ => trivial)).1

/-- The second index run solves `f` again and leaves the token and the cache row of `A`. -/
theorem callerStore_outlived :
    ¬ ∀ store : DeepStore String, Reachable store → store.Sound := by
  intro h
  have hsound := h (callerStore.attempt (.index secondIndex) false)
    (.attempt (.attempt (.attempt .initial _ _) _ _) _ _)
  exact absurd hsound.current (by decide)

end Example

end CppContextEngine.Storage.Deep
