import CppContextEngine.Storage.SymbolTables

/-!
# Symbol search

The full-text index ranks the variants of the requested builds and the symbols
that have none.  Names that equal the query, or end with it, gain a boost after
the database has cut its answer.  The index, its ranks and the text functions
of the query are parameters.
-/

namespace CppContextEngine.Storage

open CppContextEngine.Foundation CppContextEngine.Models

/-- The arithmetic of the scores. -/
class ScoreArithmetic (Score : Type) where
  neg : Score → Score
  add : Score → Score → Score
  /-- `0.0`, `1.0` and `2.0` -/
  literal : Fin 3 → Score

instance : ScoreArithmetic Rat where
  neg := Rat.neg
  add := Rat.add
  literal value := value.val

/-- The text functions that a query goes through. -/
structure QueryText where
  /-- `re.findall(r"[\w:]+", …)` -/
  terms : String → List String
  casefold : String → String
  strip : String → String

/-- `bm25` of the document of a row, if it matches an expression. -/
structure SearchIndex (Score : Type) where
  variantRank : String → SnapshotRow → Option Score
  symbolRank : String → SymbolRow → Option Score

structure SearchQuery where
  text : String
  limit : Nat := 20
  limitPositive : 0 < limit := by decide
  deriving DecidableEq

/-- A row with its rank. -/
structure Ranked (Score ρ : Type) where
  rank : Score
  row : ρ
  deriving DecidableEq

/-- The quoted terms of `MATCH`, in names and signatures. -/
def matchExpression (terms : List String) : String :=
  let quoted := terms.map fun term => "\"" ++ String.ofList (term.toList.flatMap fun char =>
    if char = '"' then ['"', '"'] else [char]) ++ "\""
  let alternatives := " OR ".intercalate quoted
  "qualified_name : (" ++ alternatives ++ ") OR signature : (" ++ alternatives ++ ")"

namespace SymbolStore

variable {Score : Type} [LinearOrder Score] [ScoreArithmetic Score] (store : SymbolStore)
  (index : SearchIndex Score) (text : QueryText)

/-- `ORDER BY rank, variants.build_variant, variants.id` -/
def variantMatches (expression : String) (projectId : Nat) (names : List String) :
    List (Ranked Score SnapshotRow) :=
  sortBy (fun found => (toLex (found.rank, [found.row.buildVariant, found.row.id]) :
      Score ×ₗ List String))
    (store.variants.filterMap fun row =>
      if row.projectId = projectId ∧ row.buildVariant ∈ names then
        (index.variantRank expression row).map fun rank => ⟨rank, row⟩
      else none)

/-- `ORDER BY rank, symbols.qualified_name` of the symbols without variants -/
def standaloneMatches (expression : String) (projectId : Nat) : List (Ranked Score SymbolRow) :=
  sortBy (fun found => (toLex (found.rank, found.row.text.qualifiedName.val) : Score ×ₗ String))
    (store.symbols.filterMap fun row =>
      if row.projectId = projectId ∧ ¬ ∃ variant ∈ store.variants,
          variant.projectId = row.projectId ∧ variant.symbolId = row.text.id.val then
        (index.symbolRank expression row).map fun rank => ⟨rank, row⟩
      else none)

open ScoreArithmetic in
/-- The hit of a variant: its rank with both boosts. -/
def variantHit (queryText : String) (found : Ranked Score SnapshotRow) : SearchHit Score :=
  let name := text.casefold found.row.symbol.text.qualifiedName.val
  { symbol := found.row.symbol
    score := add (add (neg found.rank) (if name = queryText then literal 2 else literal 0))
      (if ("::" ++ queryText).toList.isSuffixOf name.toList then literal 1 else literal 0)
    source := "sqlite-symbol" }

def standaloneHit (found : Ranked Score SymbolRow) : SearchHit Score where
  symbol := found.row.symbol
  score := ScoreArithmetic.neg found.rank
  source := "sqlite-symbol"

/-- `(-hit.score, hit.symbol.qualified_name, hit.symbol.id)` -/
def hitOrder (hit : SearchHit Score) : Score ×ₗ List String :=
  toLex (ScoreArithmetic.neg hit.score, [hit.symbol.text.qualifiedName.val, hit.symbol.text.id.val])

/-- `_standalone_search(…, symbols_only=True)` -/
def standaloneSearch (expression : String) (projectId limit : Nat) : List (SearchHit Score) :=
  ((store.standaloneMatches index expression projectId).take limit).map standaloneHit

/-- `search_symbols` -/
def searchSymbols (query : SearchQuery) (root : Option String) (scope : Option BuildScope) :
    Except StoreError (List (SearchHit Score)) := do
  let projectId ← store.projectIdOf root
  let terms := text.terms query.text
  if terms = [] then return []
  let expression := matchExpression terms
  let names := store.scopeNames scope
  let rows := (store.variantMatches index expression projectId names).take query.limit
  let queryText := text.strip (text.casefold query.text)
  let hits := rows.map (variantHit text queryText)
  let hits := hits ++
    if defaultBuildVariant ∈ names ∧ hits.length < query.limit then
      store.standaloneSearch index expression projectId (query.limit - hits.length)
    else []
  return (sortBy hitOrder hits).take query.limit

/-- All symbols that match: the variants in the order of their ranks, then the others. -/
def matchingHits (query : SearchQuery) (root : Option String) (scope : Option BuildScope) :
    Except StoreError (List (SearchHit Score)) := do
  let projectId ← store.projectIdOf root
  let terms := text.terms query.text
  if terms = [] then return []
  let expression := matchExpression terms
  let names := store.scopeNames scope
  let queryText := text.strip (text.casefold query.text)
  let variants := (store.variantMatches index expression projectId names).map
    (variantHit text queryText)
  let others := if defaultBuildVariant ∈ names then
      (store.standaloneMatches index expression projectId).map standaloneHit
    else []
  return variants ++ others

/-- The database cuts the matches before the boosts count. -/
theorem searchSymbols_eq (query : SearchQuery) (root : Option String)
    (scope : Option BuildScope) :
    store.searchSymbols index text query root scope =
      (store.matchingHits index text query root scope).map fun hits =>
        sortBy hitOrder (hits.take query.limit) := by
  unfold searchSymbols matchingHits
  cases store.projectIdOf root with
  | error error => rfl
  | ok projectId =>
      by_cases hterms : text.terms query.text = []
      · simp [hterms, bind, Except.bind, pure, Except.pure, Except.map, sortBy]
      · simp only [hterms, bind, Except.bind, pure, Except.pure, Except.map, if_false]
        generalize store.variantMatches index _ projectId _ = variants
        generalize text.strip (text.casefold query.text) = queryText
        generalize hothers : (if defaultBuildVariant ∈ scopeNames store scope then
          (store.standaloneMatches index _ projectId).map standaloneHit else []) = others
        have hcut : (variants.take query.limit).map (variantHit text queryText) ++
            (if defaultBuildVariant ∈ scopeNames store scope ∧
                ((variants.take query.limit).map (variantHit text queryText)).length < query.limit then
              store.standaloneSearch index (matchExpression (text.terms query.text)) projectId
                (query.limit - ((variants.take query.limit).map (variantHit text queryText)).length)
            else []) =
            (variants.map (variantHit text queryText) ++ others).take query.limit := by
          rw [List.take_append, List.length_map, List.map_take, ← hothers, List.length_map,
            List.length_take]
          congr 1
          by_cases hshort : variants.length < query.limit
          · rw [Nat.min_eq_right hshort.le]
            split <;> simp_all [standaloneSearch, List.map_take]
          · have hfull : query.limit ≤ variants.length := by omega
            simp [Nat.min_eq_left hfull, Nat.sub_eq_zero_of_le hfull]
        rw [hcut, List.take_of_length_le]
        simp

/-- The best matches are found just when no match behind the cut of the database would be
before one that it keeps. -/
theorem searchSymbols_best_iff (query : SearchQuery) (root : Option String)
    (scope : Option BuildScope) :
    (store.searchSymbols index text query root scope =
      (store.matchingHits index text query root scope).map fun hits =>
        (sortBy hitOrder hits).take query.limit) ↔
    ∀ hits, store.matchingHits index text query root scope = .ok hits →
      ∀ kept ∈ hits.take query.limit, ∀ cut ∈ hits.drop query.limit,
        hitOrder kept ≤ hitOrder cut := by
  rw [searchSymbols_eq]
  cases store.matchingHits index text query root scope with
  | error error => simp [Except.map]
  | ok hits =>
      have := sortBy_take_eq_iff hitOrder hits query.limit
      simpa [Except.map] using this

/-! ## An exact name that is cut -/

def declaredAt (line : Nat) (h : 0 < line) : SourceSpan where
  path := "/p/foo.cpp"
  startLine := line
  endLine := line
  startColumn := 1
  endColumn := 9
  positive := by omega
  ordered := by omega

/-- `foo`, and a function whose name ends with it. -/
def exactAndSuffix : SymbolStore where
  projectRoot := some "/p"
  buildScope := BuildScope.default
  projects := [⟨1, "/p"⟩]
  symbols := []
  variants := [
    { projectId := 1, id := "v1", symbolId := "s1", buildVariant := "default",
      buildConfigurationId := "c", translationUnitId := "u", isDefinition := true
      text := { id := ⟨"s1", by decide⟩, qualifiedName := ⟨"foo", by decide⟩,
                kind := .function, span := declaredAt 1 (by decide) } },
    { projectId := 1, id := "v2", symbolId := "s2", buildVariant := "default",
      buildConfigurationId := "c", translationUnitId := "u", isDefinition := true
      text := { id := ⟨"s2", by decide⟩, qualifiedName := ⟨"foo::foo", by decide⟩,
                kind := .function, span := declaredAt 2 (by decide) } }]
  variantKeys := by decide

/-- The longer name ranks a little better. -/
def exactAndSuffixIndex : SearchIndex Rat where
  variantRank _ row := if row.id = "v1" then some (-9 / 2) else some (-5)
  symbolRank _ _ := none

/-- What the text functions do with one lower-case word. -/
def oneWord : QueryText where
  terms text := [text]
  casefold := id
  strip := id

/-- The name that is asked for has the better score, but the other one is returned. -/
theorem exact_name_cut :
    (exactAndSuffix.searchSymbols exactAndSuffixIndex oneWord ⟨"foo", 1, by decide⟩ none none).map
        (·.map fun hit => (hit.symbol.variantId, hit.score)) = .ok [("v2", 6)] ∧
    ((exactAndSuffix.matchingHits exactAndSuffixIndex oneWord ⟨"foo", 1, by decide⟩ none none).map
        fun hits => ((sortBy hitOrder hits).take 1).map fun hit =>
          (hit.symbol.variantId, hit.score)) = .ok [("v1", 13 / 2)] := by
  decide +kernel

end SymbolStore

end CppContextEngine.Storage
