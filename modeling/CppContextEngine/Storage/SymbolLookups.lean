import CppContextEngine.Foundation.Fallible
import CppContextEngine.Foundation.Keyset
import CppContextEngine.Storage.GraphTables

/-!
# One lookup and many

`get_symbol` asks one query for the variant that an identifier names and for
the variants of the symbol that it names.  `get_symbols` looks for both in
chunks and lets the exact variant win.  The two agree on identifiers that do
not name a variant and another variant's symbol at once.
-/

namespace CppContextEngine.Storage

open CppContextEngine.Foundation CppContextEngine.Models

/-- The symbol tables with the other keys of their schema. -/
structure KeyedSymbols extends SymbolStore where
  /-- `PRIMARY KEY(project_id, id)` -/
  symbolKeys : (symbols.map fun row => (row.projectId, row.text.id)).Nodup
  /-- `UNIQUE (project_id, build_variant, translation_unit_id, symbol_id)` -/
  variantPlaces : (variants.map fun row =>
    (row.projectId, row.buildVariant, row.translationUnitId, row.symbolId)).Nodup

namespace SymbolStore

variable (store : SymbolStore)

/-- The row that `get_symbol` takes from the variants. -/
def singleRow (projectId : Nat) (names : List String) (symbolId : String) : Option SnapshotRow :=
  (sortBy GraphStore.definitionOrder (store.variants.filter fun row =>
    row.projectId = projectId ∧ (row.symbolId = symbolId ∨ row.id = symbolId) ∧
      row.buildVariant ∈ names)).head?

/-- The queries of `get_symbol` in one project. -/
def findOne (projectId : Nat) (names : List String) (symbolId : String) : Option CodeSymbol :=
  match store.singleRow projectId names symbolId with
  | some row => some row.symbol
  | none =>
      if defaultBuildVariant ∈ names then
        (store.symbols.find? fun row => row.projectId = projectId ∧ row.text.id.val = symbolId).map
          SymbolRow.symbol
      else none

/-- `get_symbol` -/
def getSymbol (symbolId : String) (root : Option String) (scope : Option BuildScope) :
    Except StoreError (Option CodeSymbol) :=
  match store.projectIdOf root with
  | .error .keyError => .ok none
  | .error error => .error error
  | .ok projectId => .ok (store.findOne projectId (store.scopeNames scope) symbolId)

/-- No identifier is a variant's and the canonical one of another symbol. -/
def NoForeignIds : Prop :=
  ∀ variant ∈ store.variants, ∀ row ∈ store.symbols, variant.projectId = row.projectId →
    variant.id = row.text.id.val → row.text.id.val = variant.symbolId

/-- No identifier is a variant's and the canonical one of another variant's symbol. -/
def NoSharedIds : Prop :=
  ∀ variant ∈ store.variants, ∀ other ∈ store.variants, variant.projectId = other.projectId →
    variant.id = other.symbolId → variant = other

end SymbolStore

/-- An identifier names one canonical row at most. -/
theorem SymbolStore.find?_eq_canonicalRow {store : SymbolStore}
    (hkeys : (store.symbols.map fun row => (row.projectId, row.text.id)).Nodup)
    (projectId : Nat) (id : String) :
    (store.symbols.find? fun row => row.projectId = projectId ∧ row.text.id.val = id) =
      store.canonicalRow projectId id := by
  have hunique (row) (hrow : row ∈ store.symbols) (other) (hother : other ∈ store.symbols)
      (hproject : row.projectId = other.projectId) (hid : row.text.id.val = other.text.id.val) :
      row = other :=
    List.inj_on_of_nodup_map hkeys hrow hother
      (by rw [hproject, Subtype.ext hid])
  cases hrow : store.canonicalRow projectId id with
  | none =>
      rw [List.find?_eq_none]
      intro row hmem hfound
      simp only [decide_eq_true_eq] at hfound
      unfold SymbolStore.canonicalRow at hrow
      rw [← Option.not_isSome_iff_eq_none, lastBy_isSome_iff] at hrow
      exact hrow ⟨row, by simpa using ⟨hmem, hfound.1⟩, hfound.2⟩
  | some row =>
      have hmem := mem_of_lastBy _ hrow
      have hid := lastBy_key _ hrow
      simp only [List.mem_filter, decide_eq_true_eq] at hmem
      rw [find?_eq_some_iff_of_unique]
      · simpa using ⟨hmem.1, hmem.2, hid⟩
      · intro row hrow other hother h h'
        simp only [decide_eq_true_eq] at h h'
        exact hunique row hrow other hother (h.1.trans h'.1.symm) (h.2.trans h'.2.symm)

namespace KeyedSymbols

variable {store : KeyedSymbols} {projectId : Nat} {names : List String} {id : String}

/-- Columns decide that differ, whatever follows them. -/
theorem le_of_heads {a b c d a' b' c' d' : String} (h : [a, b, c] ≤ [a', b', c'])
    (hne : a = a' → b ≠ b') : [a, b, d] ≤ [a', b', d'] := by
  apply le_of_lt
  rcases lt_or_eq_of_le h with hlt | heq
  · simp only [List.cons_lt_cons_iff] at hlt ⊢
    rcases hlt with hlt | ⟨rfl, hlt | ⟨rfl, -⟩⟩
    · exact .inl hlt
    · exact .inr ⟨rfl, .inl hlt⟩
    · exact absurd rfl (hne rfl)
  · simp only [List.cons.injEq] at heq
    exact absurd heq.2.1 (hne heq.1)

/-- Among the variants of one symbol, either query's order is the other's. -/
theorem sortBy_definition {rows : List SnapshotRow} (hrows : rows.Sublist store.variants)
    (hproject : ∀ row ∈ rows, row.projectId = projectId) (hsymbol : ∀ row ∈ rows, row.symbolId = id) :
    sortBy GraphStore.definitionOrder rows = sortBy SymbolStore.definitionFirst rows := by
  have hplace (row) (hrow : row ∈ rows) (other) (hother : other ∈ rows)
      (hvariant : row.buildVariant = other.buildVariant)
      (hunit : row.translationUnitId = other.translationUnitId) : row = other := by
    apply List.inj_on_of_nodup_map store.variantPlaces (hrows.subset hrow) (hrows.subset hother)
    simp only [Prod.mk.injEq]
    exact ⟨(hproject row hrow).trans (hproject other hother).symm, hvariant, hunit,
      (hsymbol row hrow).trans (hsymbol other hother).symm⟩
  have hnodup : (rows.map SymbolStore.definitionFirst).Nodup := by
    refine List.Nodup.map_on ?_ (hrows.nodup (.of_map _ store.variantKeys))
    intro row hrow other hother hkey
    simp only [SymbolStore.definitionFirst, EmbeddingLike.apply_eq_iff_eq, Prod.mk.injEq,
      List.cons.injEq] at hkey
    exact hplace row hrow other hother hkey.2.1 hkey.2.2.1
  refine eq_sortBy_of_perm _ hnodup ?_ (sortBy_perm _ rows)
  refine (sortBy_pairwise GraphStore.definitionOrder rows).imp_of_mem ?_
  intro row other hrow hother hle
  rw [mem_sortBy] at hrow hother
  by_cases hsame : row = other
  · rw [hsame]
  -- The orders differ in the last column only, and two rows agree on none of the rest.
  rw [GraphStore.definitionOrder, GraphStore.definitionOrder, Prod.Lex.toLex_le_toLex] at hle
  rw [SymbolStore.definitionFirst, SymbolStore.definitionFirst, Prod.Lex.toLex_le_toLex]
  refine hle.imp_right fun ⟨hdefinition, hlist⟩ => ⟨hdefinition, ?_⟩
  exact le_of_heads hlist fun hvariant hunit =>
    hsame (hplace row hrow other hother hvariant hunit)

/-- The row that `get_symbol` takes is the exact variant, or else the preferred one. -/
theorem singleRow_eq (hshared : store.NoSharedIds) : store.singleRow projectId names id =
    (store.exactRow projectId names id).or (store.preferredRow projectId names id) := by
  unfold SymbolStore.singleRow
  cases hexact : store.exactRow projectId names id with
  | some exact =>
      obtain ⟨hmem, hproject, hid, hname⟩ := store.exactRow_eq_some.mp hexact
      have honly (row) (hrow : row ∈ store.variants.filter fun row => row.projectId = projectId ∧
          (row.symbolId = id ∨ row.id = id) ∧ row.buildVariant ∈ names) : row = exact := by
        simp only [List.mem_filter, decide_eq_true_eq] at hrow
        obtain ⟨hvariant, hproject', hsymbol | hsame, -⟩ := hrow
        · exact (hshared exact hmem row hvariant (hproject.trans hproject'.symm)
            (hid.trans hsymbol.symm)).symm
        · apply List.inj_on_of_nodup_map store.variantKeys hvariant hmem
          rw [hproject', hsame, hproject, hid]
      have hfound : exact ∈ sortBy GraphStore.definitionOrder (store.variants.filter fun row =>
          row.projectId = projectId ∧ (row.symbolId = id ∨ row.id = id) ∧
            row.buildVariant ∈ names) := by
        simp [hmem, hproject, hid, hname]
      obtain ⟨first, rest, hrows⟩ := List.exists_cons_of_ne_nil (List.ne_nil_of_mem hfound)
      have hfirst : first = exact := by
        apply honly
        rw [← mem_sortBy GraphStore.definitionOrder, hrows]
        exact List.mem_cons_self
      rw [hrows, hfirst]
      rfl
  | none =>
      rw [Option.none_or, SymbolStore.preferredRow, ← sortBy_definition List.filter_sublist]
      · congr 2
        refine List.filter_congr fun row hrow => ?_
        have hother : ¬ (row.projectId = projectId ∧ row.id = id ∧ row.buildVariant ∈ names) := by
          intro hfound
          have hsome := store.exactRow_eq_some.mpr ⟨hrow, hfound⟩
          rw [hexact] at hsome
          cases hsome
        rw [decide_eq_decide]
        constructor
        · rintro ⟨hproject, hsymbol | hid, hname⟩
          · exact ⟨hproject, hsymbol, hname⟩
          · exact absurd ⟨hproject, hid, hname⟩ hother
        · rintro ⟨hproject, hsymbol, hname⟩
          exact ⟨hproject, .inl hsymbol, hname⟩
      · intro row hrow
        simp only [List.mem_filter, decide_eq_true_eq] at hrow
        exact hrow.2.1
      · intro row hrow
        simp only [List.mem_filter, decide_eq_true_eq] at hrow
        exact hrow.2.2.1

/-- One lookup finds what the lookup of many finds. -/
theorem findOne_eq_lookup (hshared : store.NoSharedIds) :
    store.findOne projectId names id = store.lookup projectId names id := by
  unfold SymbolStore.findOne SymbolStore.lookup
  rw [singleRow_eq hshared, SymbolStore.find?_eq_canonicalRow store.symbolKeys]
  cases store.exactRow projectId names id with
  | some exact => rfl
  | none => cases store.preferredRow projectId names id <;> rfl

end KeyedSymbols

/-- The lookup of the graph queries is the same function. -/
theorem GraphStore.getSymbol_eq (store : GraphStore)
    (hkeys : (store.symbols.map fun row => (row.projectId, row.text.id)).Nodup)
    (symbolId : String) (root : Option String) (scope : BuildScope) :
    store.getSymbol symbolId root scope.variants =
      store.toSymbolStore.getSymbol symbolId root (some scope) := by
  unfold GraphStore.getSymbol SymbolStore.getSymbol GraphStore.findSymbol SymbolStore.findOne
  simp only [SymbolStore.find?_eq_canonicalRow hkeys]
  rfl

/-! ### A variant with its symbol's identifier -/

section OwnIdentifier

def ownText : SymbolText where
  id := ⟨"x", by decide +kernel⟩
  qualifiedName := ⟨"x", by decide +kernel⟩
  kind := .function
  span := .start "x.cpp"

/-- A variant of the symbol `x`. -/
def ownVariant (id unit : String) (isDefinition : Bool) : SnapshotRow where
  projectId := 1
  id
  symbolId := "x"
  buildVariant := "default"
  buildConfigurationId := ""
  translationUnitId := unit
  isDefinition
  text := ownText

/-- The declaration of `x` is stored under an identifier, its definition under `y`. -/
def declarationAs (id : String) (hid : id ≠ "y") : KeyedSymbols where
  projectRoot := some "/p"
  buildScope := .default
  projects := [⟨1, "/p"⟩]
  symbols := [⟨1, ownText, ""⟩]
  variants := [ownVariant id "a" false, ownVariant "y" "b" true]
  variantKeys := by simp [ownVariant, hid]
  symbolKeys := List.nodup_singleton _
  variantPlaces := by simp [ownVariant]

end OwnIdentifier

end CppContextEngine.Storage
