import CppContextEngine.Foundation.Ranking
import CppContextEngine.Ingestion.FactTables

/-!
# Files, symbols, edges and calls

The passes of `_FactBatchBuilder.build` that both profiles run.
-/

namespace CppContextEngine.Ingestion

open CppContextEngine.Foundation CppContextEngine.Models

/-- What leaves the builder: the protocol's error, or an exception that nobody translates. -/
inductive Raised where
  | protocol (message : String)
  | valueError
  | overflowError
  | assertionError
  deriving DecidableEq, Repr

def Raised.ofIngest : IngestError → Raised
  | .protocol message => .protocol message
  | .value => .valueError

def Raised.ofBuild : BuildError → Raised
  | .ingest error => .ofIngest error
  | .chunks error => .protocol error.message
  | .unusedChunks => .protocol "analyzer emitted unused symbol text chunks"
  | .noSymbol => .assertionError

instance : MonadLift (Except IngestError) (Except Raised) where
  monadLift computation := computation.mapError Raised.ofIngest

instance : MonadLift (Except BuildError) (Except Raised) where
  monadLift computation := computation.mapError Raised.ofBuild

def protocolVersion : Int := 5
def requiredClangMajor : Int := 18

variable [NativeLibrary]

namespace FactContext

variable (ctx : FactContext)

/-! ## Files and symbols -/

/-- `SourceSpan(path, 1, max(1, len(lines)), 1, len(lines[-1]) + 1 if lines else 1)` -/
def wholeFile (path : String) : SourceSpan where
  path
  startLine := 1
  endLine := max 1 (ctx.lines path).length
  startColumn := 1
  endColumn := ((ctx.lines path).getLast?.elim 0 String.length) + 1
  positive := by omega
  ordered := by omega

/-- The row of a file. -/
def fileRow (path : String) (id name : Identifier) : SymbolRow where
  id
  qualifiedName := name
  kind := .file
  span := ctx.wholeFile path
  signature := name.val
  sourceHash := ctx.fileHash path
  buildConfigurationId := ctx.configurationId
  translationUnitId := ctx.unitId
  buildVariant := ctx.buildVariant
  variantId := (ctx.variantId id).val
  metadata := Table.ofEntries
    [("relative_path", .text name.val), ("analysis_backend", .text "clang-libtooling"),
      ("advanced_facts_complete", .bool true)]

/-- `_file_symbol` -/
def fileSymbol (tables : FactTables) (path : String) (key : Option String) :
    Except IngestError FactTables := do
  let relative := ctx.display path
  let symbolId := rowId ⟨"file_", by decide +kernel⟩ [relative]
  let key := key.getD ("file:" ++ relative)
  let tables := { tables with
    keys := tables.keys.insert key symbolId
    files := tables.files.insert key path }
  match tables.symbols[symbolId.val]? with
  | some _ => return tables
  | none => do
      let name ← modelText relative
      return { tables with
        symbols := tables.symbols.insert symbolId.val (ctx.fileRow path symbolId name) }

/-- `_file_fact` -/
def fileFact (tables : FactTables) (fact : Record) : Except IngestError FactTables := do
  let key ← fact.string "key"
  let path ← ctx.path (← fact.string "path")
  ctx.fileSymbol { tables with files := tables.files.insert key path } path (some key)

/-- `bool(value)` -/
def truthy : Json → Bool
  | .null => false
  | .bool value => value
  | .int value => value ≠ 0
  | .float token => ctx.floatValue token ≠ some 0
  | .text value => value ≠ ""
  | .list items => !items.isEmpty
  | .object entries => !entries.isEmpty

/-- `bool(symbol.metadata.get("is_definition"))` -/
def isDefinition (symbol : SymbolRow) : Bool :=
  ctx.truthy (Record.get symbol.metadata "is_definition")

/-- The metadata that a symbol is stored with. -/
def symbolMetadata (key : String) (metadata : Record) : Record :=
  let metadata := ((metadata.erase "advanced_facts_complete").insert "analyzer_protocol"
    (.int protocolVersion)).insert "analyzer_clang_major" (.int requiredClangMajor)
  if "usr:".toList.isPrefixOf key.toList then
    metadata.insert "usr" (.text (String.ofList (key.toList.drop 4)))
  else metadata

/-- `fact.get("metadata", {})` -/
def metadataOf (fact : Record) : Except IngestError Record :=
  match Record.fieldsOf ((fact["metadata"]?).getD (.object [])) with
  | some metadata => .ok metadata
  | none => protocolError "symbol metadata must be an object"

/-- The row of `_symbol_fact`. -/
def symbolRow (fact : Record) : Except IngestError SymbolRow := do
  let key ← fact.string "key"
  let id := rowId ⟨"sym_", by decide +kernel⟩ [key]
  let span ← ctx.span (← fact.mapping "span")
  let metadata ← metadataOf fact
  let qualifiedName ← fact.string "qualified_name"
  let kind ← modelEnum (← fact.string "kind")
  let signature ← fact.optionalString "signature"
  let documentation ← fact.optionalString "documentation"
  let sourceText ← fact.optionalString "source_text"
  let qualifiedName ← modelText qualifiedName
  return {
    id, qualifiedName, kind, span, signature, documentation
    sourceHash := hashText [sourceText]
    sourceText
    buildConfigurationId := ctx.configurationId
    translationUnitId := ctx.unitId
    buildVariant := ctx.buildVariant
    variantId := (ctx.variantId id).val
    metadata := symbolMetadata key metadata }

/-- A definition takes the place of a row that is none. -/
def enterSymbol (tables : FactTables) (symbol : SymbolRow) : FactTables :=
  match tables.symbols[symbol.id.val]? with
  | none => { tables with symbols := tables.symbols.insert symbol.id.val symbol }
  | some previous =>
      if ctx.isDefinition symbol && !ctx.isDefinition previous then
        { tables with symbols := tables.symbols.insert symbol.id.val symbol }
      else tables

/-- `_symbol_fact` -/
def symbolFact (tables : FactTables) (fact : Record) : Except IngestError FactTables := do
  let key ← fact.string "key"
  let symbol ← ctx.symbolRow fact
  return ctx.enterSymbol { tables with keys := tables.keys.insert key symbol.id } symbol

/-- The builder's tables and the fragments that no symbol has used. -/
abbrev SymbolState := FactTables × List Record

/-- The logical symbol of a fact, and the fragments that remain. -/
def logicalSymbol (fact : Record) (fragments : List Record) :
    Except BuildError (Record × List Record) := do
  let (logical, chunks) ← (SymbolTextChunks.accept { assemble := true } fact).mapError
    BuildError.chunks
  let (logical, fragments) ← completeSymbol logical chunks fragments
  match logical with
  | none => throw .noSymbol
  | some symbol => return (symbol, fragments)

/-- One round of the loop over symbols. -/
def symbolStep (state : SymbolState) (fact : Record) : Except Raised SymbolState := do
  let fact ← state.1.restored fact
  let (symbol, fragments) ← logicalSymbol fact state.2
  return (← ctx.symbolFact state.1 symbol, fragments)

/-- The loop over symbols. -/
def symbolPass (facts : List Record) (tables : FactTables) : Except Raised FactTables := do
  let (tables, fragments) ← (factRecords facts "symbol").foldlM ctx.symbolStep
    (tables, factRecords facts symbolTextChunkKind)
  throwIf (fragments ≠ []) (Raised.protocol "analyzer emitted unused symbol text chunks")
  return tables

def fileStep (tables : FactTables) (fact : Record) : Except IngestError FactTables := do
  ctx.fileFact tables (← tables.restored fact)

/-- The loop over files. -/
def filePass (facts : List Record) : Except IngestError FactTables :=
  (factRecords facts "file").foldlM ctx.fileStep {}

/-- The file that an include resolves to. -/
def includeFile (tables : FactTables) (fact : Record) : Except IngestError FactTables := do
  match fact.get "resolved_path" with
  | .text path => ctx.fileSymbol tables (← ctx.path path) none
  | _ => return tables

def includeStep (tables : FactTables) (fact : Record) : Except IngestError FactTables := do
  ctx.includeFile tables (← tables.restored fact)

/-- The loop over the files that includes resolve to. -/
def includePass (facts : List Record) (tables : FactTables) : Except IngestError FactTables :=
  (factRecords facts "include").foldlM ctx.includeStep tables

/-! ## Occurrences and edges -/

/-- The symbol around an occurrence. -/
def enclosingId (tables : FactTables) (fact : Record) : Except IngestError (Option Identifier) :=
  match fact.get "enclosing_key" with
  | .text key => if key = "" then .ok none else some <$> tables.knownId key
  | _ => .ok none

/-- The spans of a macro's use. -/
def macroSpans (kind : OccurrenceKind) (fact : Record) :
    Except IngestError (Option (SourceSpan × SourceSpan)) :=
  match kind with
  | .macroExpansion => do
      let spelling ← ctx.span (← fact.mapping "spelling_span")
      let expansion ← ctx.span (← fact.mapping "expansion_span")
      return some (spelling, expansion)
  | _ => .ok none

/-- `_occurrence_fact` -/
def occurrenceFact (tables : FactTables) (fact : Record) : Except IngestError SymbolOccurrence := do
  let key ← fact.string "symbol_key"
  let symbolId ← tables.knownId key
  let span ← ctx.span (← fact.mapping "span")
  let kind ← modelEnum (ε := OccurrenceKind) (← fact.string "kind")
  let enclosingSymbolId ← enclosingId tables fact
  let metadata ← ctx.macroSpans kind fact
  return {
    id := rowId ⟨"occ_", by decide +kernel⟩
      ([symbolId.val, ctx.buildVariant, ctx.unitId, StrEnum.value kind] ++ spanTexts span)
    symbolId, span, kind, enclosingSymbolId
    translationUnitId := ctx.unitId
    buildConfigurationId := ctx.configurationId
    buildVariant := ctx.buildVariant
    metadata }

def occurrenceStep (tables : FactTables) (occurrences : Table SymbolOccurrence) (fact : Record) :
    Except IngestError (Table SymbolOccurrence) := do
  let occurrence ← ctx.occurrenceFact tables (← tables.restored fact)
  return occurrences.insert occurrence.id.val occurrence

/-- The loop over occurrences. -/
def occurrencePass (facts : List Record) (tables : FactTables) :
    Except IngestError (Table SymbolOccurrence) :=
  (factRecords facts "occurrence").foldlM (ctx.occurrenceStep tables) ∅

/-- The relation of an edge or an include. -/
def edgeRelation (fact : Record) : Except IngestError GraphRelation :=
  if fact.hasText "fact" "include" then .ok .includes
  else do modelEnum (← fact.string "relation")

/-- The place of an edge; an edge without a span has none. -/
def edgeLocation (fact : Record) : Except IngestError (List String) :=
  match Record.fieldsOf (fact.get "span") with
  | some raw => spanTexts <$> ctx.span raw
  | none => .ok ["", "", "", "", ""]

/-- `_edge_fact` -/
def edgeFact (tables : FactTables) (fact : Record) : Except IngestError (Option EdgeRow) := do
  let relation ← edgeRelation fact
  let sourceKey ← fact.string "source_key"
  match fact.get "target_key" with
  | .text target => do
      let sourceId ← tables.knownId sourceKey
      let targetId ← tables.knownId target
      let location ← ctx.edgeLocation fact
      return some {
        sourceId, targetId, relation
        buildVariant := ctx.buildVariant
        id := rowId ⟨"edge_", by decide +kernel⟩
          ([ctx.buildVariant, ctx.unitId, sourceId.val, targetId.val, StrEnum.value relation] ++
            location)
        translationUnitId := ctx.unitId
        buildConfigurationId := ctx.configurationId }
  | _ => return none

def edgeStep (tables : FactTables) (edges : Table EdgeRow) (fact : Record) :
    Except IngestError (Table EdgeRow) := do
  match ← ctx.edgeFact tables (← tables.restored fact) with
  | some edge => return edges.insert edge.id.val edge
  | none => return edges

/-- The loops over edges and includes. -/
def edgePass (facts : List Record) (tables : FactTables) : Except IngestError (Table EdgeRow) :=
  (factRecords facts "edge" ++ factRecords facts "include").foldlM (ctx.edgeStep tables) ∅

/-! ## Calls -/

/-- The id that a callsite's key stands for. -/
def callsiteKeyStep (tables : FactTables) (fact : Record) : Except IngestError FactTables := do
  let key ← fact.string "key"
  let ownerId ← tables.knownId (← fact.string "owner_key")
  let spelling ← ctx.optionalSpan fact "spelling_span"
  let expansion ← ctx.span (← fact.mapping "expansion_span")
  let id := rowId ⟨"callsite_", by decide +kernel⟩
    ([ctx.buildVariant, ctx.configurationId, ctx.unitId, ownerId.val] ++
      spanTexts (spelling.getD expansion) ++ spanTexts expansion ++ [key])
  return { tables with callsiteIds := tables.callsiteIds.insert key id }

/-- A frame of `expansion_stack`. -/
def expansionFrame (tables : FactTables) (raw : Json) :
    Except IngestError MacroExpansionFrame :=
  match Record.fieldsOf raw with
  | some frame => do
      let macroSymbolId ← tables.knownId (← frame.string "macro_key")
      let name ← frame.string "name"
      let spellingSpan ← ctx.span (← frame.mapping "spelling_span")
      let expansionSpan ← ctx.span (← frame.mapping "expansion_span")
      let name ← modelText name
      return { macroSymbolId, name, spellingSpan, expansionSpan }
  | none => protocolError "analyzer callsite has invalid macro expansion frame"

/-- `expansion_stack` -/
def expansionStack (tables : FactTables) (fact : Record) :
    Except IngestError (List MacroExpansionFrame) :=
  match (fact["expansion_stack"]?).getD (.list []) with
  | .list frames => frames.mapM (ctx.expansionFrame tables)
  | _ => protocolError "analyzer callsite has invalid macro expansion stack"

/-- `_callsite_fact` -/
def callsiteFact (tables : FactTables) (fact : Record) : Except IngestError CallSiteRow := do
  let key ← fact.string "key"
  let staticKey ← fact.textOrNone "static_target_key" "analyzer callsite has invalid static target"
  let stack ← ctx.expansionStack tables fact
  let id ← tables.knownCallsite key
  let ownerSymbolId ← tables.knownId (← fact.string "owner_key")
  let dispatchKind ← modelEnum (← fact.string "dispatch_kind")
  let spellingSpan ← ctx.optionalSpan fact "spelling_span"
  let expansionSpan ← ctx.span (← fact.mapping "expansion_span")
  let targetSetComplete ← fact.boolean "target_set_complete"
  let staticTargetSymbolId ← knownIfGiven tables.knownId staticKey
  let unresolvedReason ← fact.optionalString "unresolved_reason"
  let calleeText ← fact.optionalString "callee_text"
  if agrees : ResolutionAgrees targetSetComplete unresolvedReason then
    return {
      id, dispatchKind, expansionSpan, staticTargetSymbolId
      translationUnitId := ctx.unitId
      buildConfigurationId := ctx.configurationId
      buildVariant := ctx.buildVariant
      ownerSymbolId, spellingSpan, targetSetComplete, unresolvedReason, calleeText
      expansionStack := stack
      agrees }
  else throw .value

/-- `sites_by_key`, in order of insertion. -/
abbrev SitesByKey := List (String × CallSiteRow)

/-- `replace(site, target_set_complete=complete, unresolved_reason=reason)` -/
def resolveSite (site : CallSiteRow) (complete : Bool) (reason : String) :
    Except IngestError CallSiteRow :=
  if agrees : ResolutionAgrees complete reason then
    .ok { site with targetSetComplete := complete, unresolvedReason := reason, agrees }
  else .error .value

/-- The resolution of one callsite. -/
def resolutionFact (sites : SitesByKey) (fact : Record) : Except IngestError SitesByKey := do
  let key ← fact.string "callsite_key"
  match sites.lookup key with
  | none => protocolError "analyzer resolution references an unknown callsite"
  | some site => do
      let complete ← fact.boolean "target_set_complete"
      let reason ← fact.optionalString "unresolved_reason"
      throwIf (complete = decide (reason ≠ "")) (IngestError.protocol
        "analyzer callsite resolution completeness is invalid")
      return upsert sites key (← resolveSite site complete reason)

/-- From this number on, `float(value)` of an integer raises `OverflowError`. -/
def floatOverflow : Nat := 2 ^ 1024 - 2 ^ 970

/-- `_number` -/
def number (fact : Record) (name : String) :
    Except Raised { value : Rat // 0 ≤ value ∧ value ≤ 1 } := do
  let invalid : Except Raised { value : Rat // 0 ≤ value ∧ value ≤ 1 } :=
    throw (.protocol ("analyzer record has invalid " ++ name))
  match fact.get name with
  | .int value =>
      if floatOverflow ≤ value.natAbs then throw .overflowError
      else if h : 0 ≤ (value : Rat) ∧ (value : Rat) ≤ 1 then return ⟨value, h⟩
      else invalid
  | .float token =>
      match ctx.floatValue token with
      | some value => if h : 0 ≤ value ∧ value ≤ 1 then return ⟨value, h⟩ else invalid
      | none => invalid
  | _ => invalid

/-- `_call_target_fact` -/
def callTargetFact (tables : FactTables) (fact : Record) : Except Raised CallTarget := do
  let callsiteId ← tables.knownCallsite (← fact.string "callsite_key")
  let targetSymbolId ← tables.knownId (← fact.string "target_key")
  let certainty ← modelEnum (ε := CallTargetCertainty) (← fact.string "certainty")
  let confidence ← ctx.number fact "confidence"
  let evidenceSpan ← ctx.span (← fact.mapping "evidence_span")
  let derivation ← fact.string "derivation"
  let confidenceReason ← fact.string "confidence_reason"
  let confidenceReason ← modelText confidenceReason
  let evidence ← modelText derivation
  return {
    id := rowId ⟨"call_target_", callTargetPrefix_named⟩
      [ctx.buildVariant, ctx.configurationId, ctx.unitId, callsiteId.val, targetSymbolId.val,
        StrEnum.value certainty, derivation]
    callsiteId, targetSymbolId, certainty
    confidence := confidence.val
    confidenceReason
    derivation := evidence
    evidenceSpan
    translationUnitId := ctx.unitId
    buildConfigurationId := ctx.configurationId
    buildVariant := ctx.buildVariant
    confidenceRange := confidence.property }

end FactContext

end CppContextEngine.Ingestion
