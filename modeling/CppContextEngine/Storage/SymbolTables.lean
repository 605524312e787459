import CppContextEngine.Foundation.Ranking
import CppContextEngine.Foundation.Table
import CppContextEngine.Models.Symbols

/-!
# Symbols in the database

The tables of projects, canonical symbols and symbol variants, and the lookups
by identifier.  A lookup prefers the variants of the requested builds; only the
default build falls back to the canonical row.
-/

namespace CppContextEngine.Storage

open CppContextEngine.Foundation CppContextEngine.Models

/-- The exceptions of a query. -/
inductive StoreError where
  | keyError
  | valueError
  deriving DecidableEq, Repr

structure ProjectRow where
  id : Nat
  root : String
  deriving DecidableEq

/-- A row of `symbols`. -/
structure SymbolRow where
  projectId : Nat
  text : SymbolText
  buildConfigurationId : String
  deriving DecidableEq

/-- `_row_to_symbol` -/
def SymbolRow.symbol (row : SymbolRow) : CodeSymbol where
  text := row.text
  buildConfigurationId := row.buildConfigurationId

/-- A row of `symbol_variant_snapshots`, its snapshot decoded. -/
structure SnapshotRow where
  projectId : Nat
  id : String
  symbolId : String
  buildVariant : String
  buildConfigurationId : String
  translationUnitId : String
  isDefinition : Bool
  text : SymbolText
  deriving DecidableEq

/-- `_variant_row_to_symbol` -/
def SnapshotRow.symbol (row : SnapshotRow) : CodeSymbol where
  text := row.text
  buildConfigurationId := row.buildConfigurationId
  translationUnitId := row.translationUnitId
  buildVariant := row.buildVariant
  variantId := row.id

/-- The connection's settings and the rows of one database. -/
structure SymbolStore where
  projectRoot : Option String
  buildScope : BuildScope
  projects : List ProjectRow
  symbols : List SymbolRow
  variants : List SnapshotRow
  /-- `PRIMARY KEY(project_id, id)` -/
  variantKeys : (variants.map fun row => (row.projectId, row.id)).Nodup

namespace SymbolStore

theorem variantKeys_nil :
    (([] : List SnapshotRow).map fun row => (row.projectId, row.id)).Nodup := List.nodup_nil

variable (store : SymbolStore)

/-- `_project_id`, where a given root is already resolved. -/
def projectIdOf (root : Option String) : Except StoreError Nat :=
  match root.or store.projectRoot with
  | none =>
      match (sortBy ProjectRow.id store.projects).take 2 with
      | [row] => .ok row.id
      | _ => .error .valueError
  | some root =>
      match store.projects.find? fun row => row.root = root with
      | none => .error .keyError
      | some row => .ok row.id

/-- `_scope_names` -/
def scopeNames (scope : Option BuildScope) : List String :=
  (scope.getD store.buildScope).variants

/-! ## `get_symbols` -/

/-- `ORDER BY is_definition DESC, build_variant, translation_unit_id, variants.id` -/
def definitionFirst (row : SnapshotRow) : Bool ×ₗ List String :=
  toLex (!row.isDefinition, [row.buildVariant, row.translationUnitId, row.id])

/-- The rows that the query of one chunk returns. -/
def chunkRows (projectId : Nat) (names chunk : List String) : List SnapshotRow :=
  sortBy definitionFirst (store.variants.filter fun row =>
    row.projectId = projectId ∧
      (row.id ∈ chunk ∨ row.buildVariant ∈ names ∧ row.symbolId ∈ chunk) ∧
      row.buildVariant ∈ names)

/-- A dictionary that is only ever asked for single keys. -/
abbrev Matches := String → Option CodeSymbol

/-- `canonical_matches` and `exact_matches` -/
structure ChunkMatches where
  canonical : Matches
  exact : Matches

/-- One round of the loop over the rows of a chunk. -/
def matchRow (chunk : List String) (found : ChunkMatches) (row : SnapshotRow) : ChunkMatches where
  canonical :=
    if row.symbolId ∈ chunk ∧ found.canonical row.symbolId = none then
      Function.update found.canonical row.symbolId (some row.symbol)
    else found.canonical
  exact :=
    if row.id ∈ chunk then Function.update found.exact row.id (some row.symbol)
    else found.exact

def chunkMatches (projectId : Nat) (names chunk : List String) : ChunkMatches :=
  (store.chunkRows projectId names chunk).foldl (matchRow chunk) ⟨fun _ => none, fun _ => none⟩

/-- A variant ID is an exact identity: it wins over the canonical matches. -/
def resolveChunk (projectId : Nat) (names : List String) (resolved : Matches)
    (chunk : List String) : Matches :=
  let found := store.chunkMatches projectId names chunk
  fun id => (found.exact id).or ((found.canonical id).or (resolved id))

/-- `items[offset : offset + size]` for each offset of `range(0, len(items), size)` -/
def slices (size : Nat) (items : List String) : List (List String) :=
  (List.range ((items.length + size - 1) / size)).map fun index =>
    (items.drop (size * index)).take size

/-- The canonical rows of one chunk of the identifiers that are still missing. -/
def resolveCanonical (projectId : Nat) (resolved : Matches) (chunk : List String) : Matches :=
  (store.symbols.filter fun row => row.projectId = projectId ∧ row.text.id.val ∈ chunk).foldl
    (fun (resolved : Matches) row =>
      Function.update resolved row.text.id.val (some row.symbol)) resolved

def resolveMissing (projectId : Nat) (names missing : List String) (resolved : Matches) :
    Matches :=
  if defaultBuildVariant ∈ names then
    (slices 500 missing).foldl (store.resolveCanonical projectId) resolved
  else resolved

/-- `get_symbols` -/
def getSymbols (requested : List String) (root : Option String) (scope : Option BuildScope) :
    Except StoreError (List (Option CodeSymbol)) :=
  if requested = [] then .ok []
  else
    match store.projectIdOf root with
    | .error .keyError => .ok (requested.map fun _ => none)
    | .error error => .error error
    | .ok projectId =>
        let names := store.scopeNames scope
        let uniqueIds := (Std.ExtTreeSet.ofList requested : Names).toList
        let resolved := (slices 400 uniqueIds).foldl (store.resolveChunk projectId names)
          fun _ => none
        let missing := uniqueIds.filter fun id => resolved id = none
        .ok (requested.map (store.resolveMissing projectId names missing resolved))

/-! ## What a lookup finds -/

/-- The variant that an identifier names exactly. -/
def exactRow (projectId : Nat) (names : List String) (id : String) : Option SnapshotRow :=
  store.variants.find? fun row =>
    row.projectId = projectId ∧ row.id = id ∧ row.buildVariant ∈ names

/-- The preferred variant of a canonical symbol. -/
def preferredRow (projectId : Nat) (names : List String) (id : String) : Option SnapshotRow :=
  (sortBy definitionFirst (store.variants.filter fun row =>
    row.projectId = projectId ∧ row.symbolId = id ∧ row.buildVariant ∈ names)).head?

/-- The last canonical row of an identifier; a database has one at most. -/
def canonicalRow (projectId : Nat) (id : String) : Option SymbolRow :=
  lastBy (fun row => row.text.id.val) id
    (store.symbols.filter fun row => row.projectId = projectId)

def lookup (projectId : Nat) (names : List String) : Matches := fun id =>
  ((store.exactRow projectId names id).map SnapshotRow.symbol).or
    (((store.preferredRow projectId names id).map SnapshotRow.symbol).or
      (if defaultBuildVariant ∈ names then
        (store.canonicalRow projectId id).map SymbolRow.symbol
      else none))

/-! ## Slices -/

theorem mem_of_mem_slices {size : Nat} {items chunk : List String} (h : chunk ∈ slices size items)
    {item : String} (hitem : item ∈ chunk) : item ∈ items := by
  obtain ⟨index, -, rfl⟩ := List.mem_map.mp h
  exact List.mem_of_mem_drop (List.mem_of_mem_take hitem)

theorem exists_slice {size : Nat} (hsize : 0 < size) {items : List String} {item : String}
    (h : item ∈ items) : ∃ chunk ∈ slices size items, item ∈ chunk := by
  obtain ⟨i, hi, rfl⟩ := List.getElem_of_mem h
  have hdiv : size * (i / size) + i % size = i := Nat.div_add_mod i size
  have hmod : i % size < size := Nat.mod_lt i hsize
  have hindex : i / size < (items.length + size - 1) / size := by
    rw [Nat.div_lt_iff_lt_mul hsize]
    have hle : i + 1 ≤ items.length := hi
    have hround : items.length ≤ (items.length + size - 1) / size * size := by
      have := Nat.div_add_mod (items.length + size - 1) size
      have := Nat.mod_lt (items.length + size - 1) hsize
      rw [Nat.mul_comm]
      omega
    omega
  refine ⟨_, List.mem_map.mpr ⟨i / size, List.mem_range.mpr hindex, rfl⟩, ?_⟩
  refine List.mem_take_iff_getElem.mpr ⟨i % size, ?_, ?_⟩
  · rw [List.length_drop]
    omega
  · rw [List.getElem_drop]
    simp only [hdiv]

/-! ## Chunks -/

theorem foldl_matchRow_exact (chunk : List String) (id : String) (rows : List SnapshotRow) :
    ∀ found : ChunkMatches, (rows.foldl (matchRow chunk) found).exact id =
      if id ∈ chunk then
        ((lastBy SnapshotRow.id id rows).map SnapshotRow.symbol).or (found.exact id)
      else found.exact id := by
  induction rows with
  | nil => simp [lastBy]
  | cons row rows ih =>
      intro found
      rw [List.foldl_cons, ih, lastBy_cons]
      by_cases hid : row.id = id
      · subst hid
        by_cases hmem : row.id ∈ chunk <;>
          cases lastBy SnapshotRow.id row.id rows <;> simp [matchRow, hmem]
      · have hkeep : (matchRow chunk found row).exact id = found.exact id := by
          simp only [matchRow]
          split <;> simp [Ne.symm hid]
        simp [hkeep, hid]

theorem foldl_matchRow_canonical (chunk : List String) (id : String) (rows : List SnapshotRow) :
    ∀ found : ChunkMatches, (rows.foldl (matchRow chunk) found).canonical id =
      (found.canonical id).or (if id ∈ chunk then
        (rows.find? fun row => row.symbolId = id).map SnapshotRow.symbol else none) := by
  induction rows with
  | nil => simp
  | cons row rows ih =>
      intro found
      rw [List.foldl_cons, ih, List.find?_cons]
      by_cases hid : row.symbolId = id
      · subst hid
        by_cases hmem : row.symbolId ∈ chunk <;>
          cases hfound : found.canonical row.symbolId <;> simp [matchRow, hmem, hfound]
      · have hkeep : (matchRow chunk found row).canonical id = found.canonical id := by
          simp only [matchRow]
          split <;> simp [Ne.symm hid]
        simp [hkeep, hid]

theorem exactRow_eq_some {projectId : Nat} {names : List String} {id : String}
    {row : SnapshotRow} : store.exactRow projectId names id = some row ↔
      row ∈ store.variants ∧ row.projectId = projectId ∧ row.id = id ∧
        row.buildVariant ∈ names := by
  rw [exactRow, find?_eq_some_iff_of_unique]
  · simp
  · intro row hrow other hother h h'
    simp only [decide_eq_true_eq] at h h'
    refine List.inj_on_of_nodup_map store.variantKeys hrow hother ?_
    rw [h.1, h.2.1, h'.1, h'.2.1]

theorem chunkMatches_exact {projectId : Nat} {names chunk : List String} {id : String} :
    (store.chunkMatches projectId names chunk).exact id =
      if id ∈ chunk then (store.exactRow projectId names id).map SnapshotRow.symbol
      else none := by
  rw [chunkMatches, foldl_matchRow_exact]
  by_cases hmem : id ∈ chunk
  · have hrow : lastBy SnapshotRow.id id (store.chunkRows projectId names chunk) =
        store.exactRow projectId names id := by
      cases hexact : store.exactRow projectId names id with
      | none =>
          rw [← Option.not_isSome_iff_eq_none, lastBy_isSome_iff]
          rintro ⟨row, hrow, rfl⟩
          simp only [chunkRows, mem_sortBy, List.mem_filter, decide_eq_true_eq] at hrow
          have hsome := store.exactRow_eq_some.mpr ⟨hrow.1, hrow.2.1, rfl, hrow.2.2.2⟩
          simp [hexact] at hsome
      | some row =>
          obtain ⟨hvariant, hproject, rfl, hname⟩ := store.exactRow_eq_some.mp hexact
          have hchunk : row ∈ store.chunkRows projectId names chunk := by
            simp [chunkRows, hvariant, hproject, hname, hmem]
          obtain ⟨found, hfound⟩ := Option.isSome_iff_exists.mp
            ((lastBy_isSome_iff SnapshotRow.id).mpr ⟨row, hchunk, rfl⟩)
          have hmemFound := mem_of_lastBy SnapshotRow.id hfound
          simp only [chunkRows, mem_sortBy, List.mem_filter, decide_eq_true_eq] at hmemFound
          rw [hfound, List.inj_on_of_nodup_map store.variantKeys hmemFound.1 hvariant]
          rw [hmemFound.2.1, hproject, lastBy_key SnapshotRow.id hfound]
    simp [hmem, hrow]
  · simp [hmem]

theorem chunkMatches_canonical {projectId : Nat} {names chunk : List String} {id : String} :
    (store.chunkMatches projectId names chunk).canonical id =
      if id ∈ chunk then (store.preferredRow projectId names id).map SnapshotRow.symbol
      else none := by
  rw [chunkMatches, foldl_matchRow_canonical]
  by_cases hmem : id ∈ chunk
  · have hrows : ((store.chunkRows projectId names chunk).filter fun row => row.symbolId = id) =
        sortBy definitionFirst (store.variants.filter fun row =>
          row.projectId = projectId ∧ row.symbolId = id ∧ row.buildVariant ∈ names) := by
      rw [chunkRows, filter_sortBy, List.filter_filter]
      congr 1
      refine List.filter_congr fun row _ => ?_
      rw [Bool.eq_iff_iff]
      simp only [Bool.and_eq_true, decide_eq_true_eq]
      constructor
      · rintro ⟨hid, hproject, -, hname⟩
        exact ⟨hproject, hid, hname⟩
      · rintro ⟨hproject, rfl, hname⟩
        exact ⟨rfl, hproject, .inr ⟨hname, hmem⟩, hname⟩
    have hfind : ((store.chunkRows projectId names chunk).find? fun row => row.symbolId = id) =
        store.preferredRow projectId names id := by
      rw [preferredRow, ← hrows, List.head?_filter]
    simp [hmem, hfind]
  · simp [hmem]

/-! ## `get_symbols` looks every identifier up -/

/-- What the variants of the requested builds give for an identifier. -/
def variantMatch (projectId : Nat) (names : List String) : Matches := fun id =>
  ((store.exactRow projectId names id).map SnapshotRow.symbol).or
    ((store.preferredRow projectId names id).map SnapshotRow.symbol)

theorem foldl_resolveChunk (projectId : Nat) (names : List String) (id : String)
    (chunks : List (List String)) : ∀ resolved : Matches,
    chunks.foldl (store.resolveChunk projectId names) resolved id =
      if ∃ chunk ∈ chunks, id ∈ chunk then
        (store.variantMatch projectId names id).or (resolved id)
      else resolved id := by
  induction chunks with
  | nil => simp
  | cons chunk chunks ih =>
      intro resolved
      have hchunk : store.resolveChunk projectId names resolved chunk id =
          if id ∈ chunk then (store.variantMatch projectId names id).or (resolved id)
          else resolved id := by
        simp only [resolveChunk, chunkMatches_exact, chunkMatches_canonical]
        split
        · rw [variantMatch, Option.or_assoc]
        · rfl
      rw [List.foldl_cons, ih, hchunk]
      simp only [List.exists_mem_cons_iff]
      by_cases hmem : id ∈ chunk <;> by_cases hrest : ∃ chunk ∈ chunks, id ∈ chunk <;>
        cases store.variantMatch projectId names id <;> simp [hmem, hrest]

theorem foldl_update (id : String) (rows : List SymbolRow) : ∀ resolved : Matches,
    rows.foldl (fun (resolved : Matches) row =>
      Function.update resolved row.text.id.val (some row.symbol)) resolved id =
    ((lastBy (fun row => row.text.id.val) id rows).map SymbolRow.symbol).or (resolved id) := by
  induction rows with
  | nil => simp [lastBy]
  | cons row rows ih =>
      intro resolved
      rw [List.foldl_cons, ih, lastBy_cons]
      by_cases hid : row.text.id.val = id
      · subst hid
        cases lastBy (fun row : SymbolRow => row.text.id.val) row.text.id.val rows <;> simp
      · simp [hid, Function.update_of_ne (Ne.symm hid)]

theorem foldl_resolveCanonical (projectId : Nat) (id : String) (chunks : List (List String)) :
    ∀ resolved : Matches, chunks.foldl (store.resolveCanonical projectId) resolved id =
      if ∃ chunk ∈ chunks, id ∈ chunk then
        ((store.canonicalRow projectId id).map SymbolRow.symbol).or (resolved id)
      else resolved id := by
  induction chunks with
  | nil => simp
  | cons chunk chunks ih =>
      intro resolved
      have hchunk : store.resolveCanonical projectId resolved chunk id =
          if id ∈ chunk then
            ((store.canonicalRow projectId id).map SymbolRow.symbol).or (resolved id)
          else resolved id := by
        rw [resolveCanonical, foldl_update]
        by_cases hmem : id ∈ chunk
        · rw [if_pos hmem, canonicalRow, lastBy, lastBy, ← List.filter_reverse,
            ← List.filter_reverse, List.find?_filter, List.find?_filter]
          congr 3
          funext row
          by_cases hid : row.text.id.val = id <;> simp [hid, hmem]
        · have hnone : lastBy (fun row : SymbolRow => row.text.id.val) id
              (store.symbols.filter fun row => row.projectId = projectId ∧
                row.text.id.val ∈ chunk) = none := by
            rw [← Option.not_isSome_iff_eq_none, lastBy_isSome_iff]
            rintro ⟨row, hrow, rfl⟩
            simp [hmem] at hrow
          rw [hnone, if_neg hmem]
          rfl
      rw [List.foldl_cons, ih, hchunk]
      simp only [List.exists_mem_cons_iff]
      by_cases hmem : id ∈ chunk <;> by_cases hrest : ∃ chunk ∈ chunks, id ∈ chunk <;>
        cases store.canonicalRow projectId id <;> simp [hmem, hrest]

theorem exists_slice_iff {size : Nat} (hsize : 0 < size) {items : List String} {item : String} :
    (∃ chunk ∈ slices size items, item ∈ chunk) ↔ item ∈ items :=
  ⟨fun ⟨_, hchunk, hitem⟩ => mem_of_mem_slices hchunk hitem, exists_slice hsize⟩

/-- The chunks and the order of the requested identifiers make no difference. -/
theorem getSymbols_eq {requested : List String} {root : Option String}
    {scope : Option BuildScope} {projectId : Nat} (hproject : store.projectIdOf root = .ok projectId) :
    store.getSymbols requested root scope =
      .ok (requested.map (store.lookup projectId (store.scopeNames scope))) := by
  unfold getSymbols
  split
  · rename_i hnil
    simp [hnil]
  · simp only [hproject]
    congr 1
    refine List.map_congr_left fun id hid => ?_
    have hunique : id ∈ (Std.ExtTreeSet.ofList requested : Names).toList := by simpa using hid
    have hslice (missing : List String) :
        (∃ chunk ∈ slices 500 missing, id ∈ chunk) ↔ id ∈ missing :=
      exists_slice_iff (by omega)
    have hresolved := store.foldl_resolveChunk projectId (store.scopeNames scope) id
      (slices 400 (Std.ExtTreeSet.ofList requested : Names).toList) fun _ => none
    rw [if_pos ((exists_slice_iff (by omega)).mpr hunique), Option.or_none] at hresolved
    unfold resolveMissing lookup
    split
    · rw [foldl_resolveCanonical]
      simp only [hslice, List.mem_filter, hunique, hresolved, true_and, decide_eq_true_eq,
        ← Option.or_assoc]
      change _ = (store.variantMatch projectId (store.scopeNames scope) id).or _
      cases store.variantMatch projectId (store.scopeNames scope) id <;> simp
    · rw [hresolved, Option.or_none]
      rfl

end SymbolStore

end CppContextEngine.Storage
