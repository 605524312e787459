import CppContextEngine.Ingestion.OverrideCandidates
import CppContextEngine.Ingestion.WireIdentities
import CppContextEngine.Models.BatchRows
import CppContextEngine.Storage.BuildVariants

/-!
# Tables of the batch builder

`_FactBatchBuilder` reads the facts of one unit pass by pass.  Its tables map
the analyzer's keys to the ids of rows, and a later pass looks up what an
earlier one has entered.
-/

namespace CppContextEngine.Ingestion

open CppContextEngine.Foundation CppContextEngine.Models

/-- What the builder gets from its constructor and from the file system. -/
structure FactContext where
  configurationId : String
  buildVariant : String
  sourcePath : String
  profile : IndexProfile
  unitId : String
  analyzerIdentity : String
  /-- `_path`: the file inside the authorized roots that a path names. -/
  authorizedFile : String → Option String
  /-- `boundary.display` -/
  display : String → String
  /-- `content.decode("utf-8", errors="replace").splitlines()` -/
  lines : String → List String
  /-- The SHA-256 of a file's content. -/
  fileHash : String → String
  /-- The number behind a JSON float; none for NaN and the infinities. -/
  floatValue : String → Option Rat

/-- The id behind a key, and the id of the row that it belongs to. -/
structure Owned where
  id : Identifier
  owner : Identifier

/-- What is known of a function summary. -/
structure SummaryEntry where
  id : Identifier
  analysisId : Identifier
  parameterCount : Nat

/-- The builder's dictionaries; those that one loop fills together are one table. -/
structure FactTables where
  symbols : Table SymbolRow := ∅
  keys : Table Identifier := ∅
  files : Table String := ∅
  /-- `cfg_graph_ids` and `cfg_graph_function_ids` -/
  cfgGraphs : Table Owned := ∅
  /-- `cfg_block_ids` and `cfg_block_graph_ids` -/
  cfgBlocks : Table Owned := ∅
  /-- `cfg_element_ids` and `cfg_element_graph_ids` -/
  cfgElements : Table Owned := ∅
  callsiteIds : Table Identifier := ∅
  /-- `data_flow_analysis_ids` and `data_flow_analysis_graph_ids` -/
  dataFlowAnalyses : Table Owned := ∅
  /-- `memory_location_ids` and `memory_location_analysis_ids` -/
  memoryLocations : Table Owned := ∅
  /-- `data_access_ids` and `data_access_analysis_ids` -/
  dataAccesses : Table Owned := ∅
  dataAccessIdentityKeys : Table String := ∅
  functionSummaries : Table SummaryEntry := ∅
  wireIdentities : WireIdentities := fun _ => ∅

/-! ## Fields -/

namespace Record

/-- The fields of a JSON object. -/
def fieldsOf : Json → Option Record
  | .object entries => some (Table.ofEntries entries)
  | _ => none

/-- `_mapping` -/
def mapping (record : Record) (name : String) : Except IngestError Record :=
  match fieldsOf (record.get name) with
  | some fields => .ok fields
  | none => invalid name

/-- `_positive_mapping_integer` -/
def positiveInteger (record : Record) (name : String) :
    Except IngestError { value : Nat // 0 < value } := do
  let value ← record.integer name
  if h : 0 < value then return ⟨value.toNat, by omega⟩ else invalid name

/-- A list of strings with an error of its own; an absent field is what `missing` says. -/
def textsOr (record : Record) (name : String) (missing : Json) (message : String) :
    Except IngestError (List String) :=
  match textsOf ((record[name]?).getD missing) with
  | some texts => .ok texts
  | none => protocolError message

/-- A field that is `None` or a string, with an error of its own. -/
def textOrNone (record : Record) (name message : String) : Except IngestError (Option String) :=
  match record.get name with
  | .null => .ok none
  | .text value => .ok (some value)
  | _ => protocolError message

end Record

/-! ## Values that a model's constructor accepts -/

/-- A text that a constructor refuses when it is blank. -/
def modelText (text : String) : Except IngestError Identifier :=
  if h : isBlank text = false then .ok ⟨text, h⟩ else .error .value

/-- The constructor of an enumeration. -/
def modelEnum {ε : Type} [StrEnum ε] (text : String) : Except IngestError ε :=
  match StrEnum.ofValue? text with
  | some member => .ok member
  | none => .error .value

open Storage (strip)

theorem not_blank_strip {text : String} (h : strip text ≠ "") : isBlank (strip text) = false := by
  have hne : (text.toList.dropWhile isSpace).reverse.dropWhile isSpace ≠ [] := by
    intro hnil
    exact h (by simp [strip, hnil])
  have hhead := List.head_dropWhile_not isSpace hne
  unfold isBlank
  apply List.all_eq_false.mpr
  refine ⟨_, ?_, Bool.eq_false_iff.mp hhead⟩
  simp [strip]

/-- `tuple(dict.fromkeys(x.strip() for x in texts if x.strip()))` -/
def strippedTexts (texts : List String) : { kept : List String // StrippedTexts kept } :=
  ⟨firstPerKey id ((texts.map strip).filter (· ≠ "")), by
    constructor
    · exact nodup_firstPerKey_id _
    · intro text htext
      simp only [mem_firstPerKey_id, List.mem_filter, List.mem_map, decide_eq_true_eq] at htext
      obtain ⟨⟨original, -, rfl⟩, hne⟩ := htext
      exact not_blank_strip hne⟩

/-- Positions that start at one and do not end before their start. -/
def SpanConsistent (startLine endLine startColumn endColumn : Int) : Prop :=
  (0 < startLine ∧ 0 < endLine ∧ 0 < startColumn ∧ 0 < endColumn) ∧
    (startLine < endLine ∨ startLine = endLine ∧ startColumn ≤ endColumn)

instance (startLine endLine startColumn endColumn : Int) :
    Decidable (SpanConsistent startLine endLine startColumn endColumn) :=
  inferInstanceAs (Decidable (_ ∧ _))

/-- `SourceSpan` -/
def modelSpan (path : String) (startLine endLine startColumn endColumn : Int) :
    Except IngestError SourceSpan :=
  if h : SpanConsistent startLine endLine startColumn endColumn then
    .ok
      { path
        startLine := startLine.toNat
        endLine := endLine.toNat
        startColumn := startColumn.toNat
        endColumn := endColumn.toNat
        positive := by
          have hpositive := h.1
          omega
        ordered := by
          have hpositive := h.1
          have hordered := h.2
          omega }
  else .error .value

section Identifiers

variable [NativeLibrary]

/-- A prefix and the first half of the digest of `values`. -/
def rowId (family : Identifier) (values : List String) : Identifier :=
  ⟨family.val ++ String.ofList ((hashText values).toList.take 32),
    not_blank_append_left _ family.property⟩

end Identifiers

/-- `table[key]`, where a missing key is the protocol's error. -/
def known {α : Type} (message : String) (table : Table α) (key : String) : Except IngestError α :=
  match table[key]? with
  | some value => .ok value
  | none => protocolError message

/-- The owner of a key in a dictionary. -/
def ownerOf (table : Table Owned) (key : String) : Option Identifier :=
  table[key]?.map Owned.owner

namespace FactTables

variable (tables : FactTables)

/-- `_known_id` -/
def knownId (key : String) : Except IngestError Identifier :=
  known "analyzer fact references an unknown symbol" tables.keys key

/-- `_known_callsite` -/
def knownCallsite (key : String) : Except IngestError Identifier :=
  known "analyzer target references an unknown callsite" tables.callsiteIds key

/-- `_known_cfg_graph` -/
def knownCfgGraph (key : String) : Except IngestError Identifier :=
  Owned.id <$> known "analyzer CFG fact references an unknown graph" tables.cfgGraphs key

/-- `_known_cfg_block` -/
def knownCfgBlock (key : String) : Except IngestError Identifier :=
  Owned.id <$> known "analyzer CFG fact references an unknown block" tables.cfgBlocks key

/-- `_known_cfg_element` -/
def knownCfgElement (key : String) : Except IngestError Identifier :=
  Owned.id <$> known "analyzer data-flow fact references an unknown CFG element"
    tables.cfgElements key

/-- `_known_data_flow_analysis` -/
def knownDataFlowAnalysis (key : String) : Except IngestError Identifier :=
  Owned.id <$> known "analyzer data-flow fact references an unknown analysis"
    tables.dataFlowAnalyses key

/-- `_known_memory_location` -/
def knownMemoryLocation (key : String) : Except IngestError Identifier :=
  Owned.id <$> known "analyzer data-flow fact references an unknown memory location"
    tables.memoryLocations key

/-- `_known_data_access` -/
def knownDataAccess (key : String) : Except IngestError Identifier :=
  Owned.id <$> known "analyzer data-flow evidence references an unknown access"
    tables.dataAccesses key

/-- `_known_function_summary` -/
def knownFunctionSummary (key : String) : Except IngestError Identifier :=
  SummaryEntry.id <$> known "analyzer fact references an unknown function summary"
    tables.functionSummaries key

end FactTables

/-- `known(key) if key else None` -/
def knownIfGiven (find : String → Except IngestError Identifier) :
    Option String → Except IngestError (Option Identifier)
  | none => .ok none
  | some key => if key = "" then .ok none else some <$> find key

namespace FactContext

variable (ctx : FactContext)

/-- `_path` -/
def path (raw : String) : Except IngestError String :=
  match ctx.authorizedFile raw with
  | some file => .ok file
  | none => protocolError "analyzer returned a path outside the authorized source roots"

/-- `_span` -/
def span (raw : Record) : Except IngestError SourceSpan := do
  let path ← ctx.path (← raw.string "path")
  let startLine ← raw.integer "start_line"
  let endLine ← raw.integer "end_line"
  let startColumn ← raw.integer "start_column"
  let endColumn ← raw.integer "end_column"
  modelSpan path startLine endLine startColumn endColumn

/-- `_optional_span` -/
def optionalSpan (fact : Record) (name : String) : Except IngestError (Option SourceSpan) :=
  match fact.get name with
  | .null => .ok none
  | .object entries => some <$> ctx.span (Table.ofEntries entries)
  | _ => Record.invalid name

/-- `_variant_id` -/
def variantId [NativeLibrary] (symbolId : Identifier) : Identifier :=
  rowId ⟨"variant_", by decide +kernel⟩ [ctx.buildVariant, ctx.unitId, symbolId.val]

end FactContext

/-- The texts that locate a span. -/
def spanTexts (span : SourceSpan) : List String :=
  [span.path, toString span.startLine, toString span.startColumn, toString span.endLine,
    toString span.endColumn]

/-! ## Passes -/

/-- A fact as `_facts` yields it. -/
def FactTables.restored [NativeLibrary] (tables : FactTables) (fact : Record) :
    Except IngestError Record :=
  restoreWireFact tables.wireIdentities fact

/-- `list(self._facts(facts, kind))` -/
def FactTables.factList [NativeLibrary] (tables : FactTables) (facts : List Record)
    (kind : String) : Except IngestError (List Record) :=
  (factRecords facts kind).mapM tables.restored

/-- A row as a loop over `_facts` makes it. -/
def FactTables.fromRaw [NativeLibrary] {α : Type} (tables : FactTables)
    (row : Record → Except IngestError α) (raw : Record) : Except IngestError α := do
  row (← tables.restored raw)

/-- The rows of the facts of a kind, each made before the next fact is read. -/
def FactTables.rowsOf [NativeLibrary] {α : Type} (tables : FactTables) (facts : List Record)
    (kind : String) (row : Record → Except IngestError α) : Except IngestError (List α) :=
  (factRecords facts kind).mapM (tables.fromRaw row)

/-- A loop over facts that enters each under its key. -/
def fillTable {α : Type} (facts : List Record)
    (entry : Record → Except IngestError (String × α)) : Except IngestError (Table α) :=
  facts.foldlM (fun table fact => do
    let item ← entry fact
    return table.insert item.1 item.2) ∅

end CppContextEngine.Ingestion
