import CppContextEngine.Foundation.FirstPerKey
import CppContextEngine.Foundation.Interning
import CppContextEngine.Foundation.Ranking
import CppContextEngine.Models.BatchRows
import CppContextEngine.Storage.GraphTables
import Mathlib.Algebra.GroupWithZero.Nat

/-!
# Interned edges and occurrences

Edges and occurrences are many, and most of their columns repeat.  The database
keeps the repeated columns once, in tables of keys, and shows the rows through
two views.  The plain tables are the ones that the views stand for.
-/

namespace CppContextEngine.Storage

open CppContextEngine.Foundation CppContextEngine.Models

/-! ## Rows -/

/-- A row of the view `occurrences`. -/
structure OccurrenceRow where
  projectId : Nat
  translationUnitId : String
  id : Identifier
  symbolId : Identifier
  enclosingSymbolId : Option Identifier
  kind : OccurrenceKind
  path : String
  startLine : Nat
  endLine : Nat
  startColumn : Nat
  endColumn : Nat
  buildConfigurationId : String
  buildVariant : String
  metadataJson : String
  deriving DecidableEq

/-- `PRIMARY KEY(project_id, id)` -/
def StoredEdge.key (row : StoredEdge) : Nat × String := (row.projectId, row.id)

/-- `PRIMARY KEY(project_id, translation_unit_id, id)` -/
def OccurrenceRow.key (row : OccurrenceRow) : Nat × String × Identifier :=
  (row.projectId, row.translationUnitId, row.id)

/-- What the rows of facts are computed with. -/
structure RowEncoding where
  /-- `_stable_id` -/
  stableId : List String → String
  /-- `json.dumps(dict(metadata), sort_keys=True)` -/
  metadataJson : Option (SourceSpan × SourceSpan) → String
  /-- `SQLITE_LIMIT_VARIABLE_NUMBER` -/
  variableLimit : Nat

namespace RowEncoding

variable (encoding : RowEncoding)

def edgeRow (projectId : Nat) (edge : IndexedEdge) : StoredEdge where
  toIndexedEdge := { edge with
    id := if edge.id = "" then encoding.stableId ["edge", edge.buildVariant,
        edge.translationUnitId, edge.sourceId.val, edge.targetId.val, StrEnum.value edge.relation]
      else edge.id }
  projectId

def occurrenceRow (projectId : Nat) (occurrence : SymbolOccurrence) : OccurrenceRow where
  projectId
  translationUnitId := occurrence.translationUnitId
  id := occurrence.id
  symbolId := occurrence.symbolId
  enclosingSymbolId := occurrence.enclosingSymbolId
  kind := occurrence.kind
  path := occurrence.span.path
  startLine := occurrence.span.startLine
  endLine := occurrence.span.endLine
  startColumn := occurrence.span.startColumn
  endColumn := occurrence.span.endColumn
  buildConfigurationId := occurrence.buildConfigurationId
  buildVariant := occurrence.buildVariant
  metadataJson := encoding.metadataJson occurrence.metadata

end RowEncoding

/-! ## Chunks -/

/-- A value that a statement binds. -/
inductive Cell where
  | null
  | integer (value : Nat)
  | text (value : String)

/-- Four bytes for each character bound a text without encoding it. -/
def Cell.bytes : Cell → Nat
  | .text value => value.length * 4
  | _ => 8

/-- The cells of a row that a statement inserts. -/
class IngestionRow (ρ : Type) where
  cells : ρ → List Cell

instance : IngestionRow Nat := ⟨fun value => [.integer value]⟩

instance : IngestionRow String := ⟨fun value => [.text value]⟩

instance {p : String → Prop} : IngestionRow { text : String // p text } :=
  ⟨fun value => [.text value.val]⟩

instance {α β : Type} [IngestionRow α] [IngestionRow β] : IngestionRow (α × β) :=
  ⟨fun row => IngestionRow.cells row.1 ++ IngestionRow.cells row.2⟩

instance : IngestionRow StoredEdge :=
  ⟨fun row => [.integer row.projectId, .text row.id, .text row.translationUnitId,
    .text row.buildConfigurationId, .text row.buildVariant, .text row.sourceId.val,
    .text row.targetId.val, .text (StrEnum.value row.relation)]⟩

instance : IngestionRow OccurrenceRow :=
  ⟨fun row => [.integer row.projectId, .text row.translationUnitId, .text row.id.val,
    .text row.symbolId.val, row.enclosingSymbolId.elim .null fun id => .text id.val,
    .text (StrEnum.value row.kind), .text row.path, .integer row.startLine,
    .integer row.endLine, .integer row.startColumn, .integer row.endColumn,
    .text row.buildConfigurationId, .text row.buildVariant, .text row.metadataJson]⟩

def insertBatchRows : Nat := 512

def insertBatchBytes : Nat := 1024 * 1024

section Chunks

variable {ρ σ : Type} [IngestionRow ρ]

def rowBytes (row : ρ) : Nat := ((IngestionRow.cells row).map Cell.bytes).sum

/-- The loop of `_ingestion_row_batches` with the rows and bytes that are pending. -/
def rowBatches (rowLimit : Nat) : List ρ → List ρ → Nat → List (List ρ)
  | [], pending, _ => if pending = [] then [] else [pending]
  | row :: rows, pending, payload =>
      -- An oversize row still executes alone.
      let flushed := if pending ≠ [] ∧ insertBatchBytes < payload + rowBytes row then [pending]
        else []
      let kept := if flushed = [] then pending ++ [row] else [row]
      let payload := (if flushed = [] then payload else 0) + rowBytes row
      flushed ++
        if rowLimit ≤ kept.length ∨ insertBatchBytes ≤ payload then
          kept :: rowBatches rowLimit rows [] 0
        else rowBatches rowLimit rows kept payload

variable (variableLimit : Nat)

/-- `_ingestion_row_batches` -/
def ingestionRowBatches (columns : Nat) (rows : List ρ) : List (List ρ) :=
  rowBatches (max 1 (min insertBatchRows (variableLimit / columns))) rows [] 0

/-- `_insert_rows`, for a statement that inserts one row after the other. -/
def insertRows (columns : Nat) (insert : σ → ρ → σ) (state : σ) (rows : List ρ) : σ :=
  (ingestionRowBatches variableLimit columns rows).foldl (fun state batch =>
    batch.foldl insert state) state

end Chunks

/-! ## Tables that facts refer to -/

structure TranslationUnitRow where
  projectId : Nat
  id : String
  buildVariant : String
  deriving DecidableEq

structure SymbolVariantRow where
  projectId : Nat
  symbolId : Identifier
  translationUnitId : String
  buildVariant : String
  deriving DecidableEq

/-- The rows of builds, units, symbols and variants, as far as deletions read them. -/
structure ParentTables where
  buildVariants : List (Nat × String)
  translationUnits : List TranslationUnitRow
  symbols : List (Nat × Identifier)
  symbolVariants : List SymbolVariantRow

namespace ParentTables

variable (parents : ParentTables) (projectId : Nat)

def deleteUnits (unitIds : List String) : ParentTables where
  buildVariants := parents.buildVariants
  translationUnits := parents.translationUnits.filter fun row =>
    ¬ (row.projectId = projectId ∧ row.id ∈ unitIds)
  symbols := parents.symbols
  symbolVariants := parents.symbolVariants.filter fun row =>
    ¬ (row.projectId = projectId ∧ row.translationUnitId ∈ unitIds)

/-- The rows of symbols that a deletion removes. -/
def symbolsAmong (symbolIds : List Identifier) : List (Nat × Identifier) :=
  parents.symbols.filter fun row => row.1 = projectId ∧ row.2 ∈ symbolIds

def deleteSymbols (symbolIds : List Identifier) : ParentTables where
  buildVariants := parents.buildVariants
  translationUnits := parents.translationUnits
  symbols := parents.symbols.filter fun row => ¬ (row.1 = projectId ∧ row.2 ∈ symbolIds)
  symbolVariants := parents.symbolVariants.filter fun row =>
    ¬ (row.projectId = projectId ∧ row.symbolId ∈ symbolIds)

/-- The symbols without a variant. -/
def orphans : List Identifier :=
  (parents.symbols.filter fun row => row.1 = projectId ∧ ∀ variant ∈ parents.symbolVariants,
    ¬ (variant.projectId = row.1 ∧ variant.symbolId = row.2)).map Prod.snd

def unitsOfBuild (name : String) : List String :=
  (parents.translationUnits.filter fun row =>
    row.projectId = projectId ∧ row.buildVariant = name).map TranslationUnitRow.id

/-- The symbols with a variant in a build. -/
def symbolsOfBuild (name : String) : List Identifier :=
  (parents.symbolVariants.filter fun row =>
    row.projectId = projectId ∧ row.buildVariant = name).map SymbolVariantRow.symbolId

def deleteBuild (name : String) : ParentTables :=
  { parents with
    buildVariants := parents.buildVariants.filter fun row => ¬ (row = (projectId, name)) }

/-- `_refresh_symbols`: a symbol that has a variant has a row. -/
def refreshSymbols (symbolIds : List Identifier) : ParentTables :=
  { parents with
    symbols := (symbolIds.filter fun id => ∃ variant ∈ parents.symbolVariants,
      variant.projectId = projectId ∧ variant.symbolId = id).foldl
        (fun symbols symbol => insertNew (fun row => row) symbols (projectId, symbol))
          parents.symbols }

end ParentTables

/-! ## Stores of edges and occurrences -/

/-- `sqlite3.IntegrityError` -/
inductive IntegrityError where
  | uniqueConstraint
  deriving DecidableEq, Repr

/-- What the store does with its edges and occurrences. -/
structure FactTables (τ : Type) where
  putEdges : Nat → List IndexedEdge → τ → Except IntegrityError τ
  putOccurrences : Nat → List SymbolOccurrence → τ → Except IntegrityError τ
  /-- The rows of deleted units go. -/
  deleteUnits : Nat → List String → τ → τ
  /-- The rows that refer to deleted rows of `symbols` go. -/
  deleteSymbols : List (Nat × Identifier) → τ → τ

structure FactStore (τ : Type) where
  parents : ParentTables
  facts : τ

/-- What happens to the store between two commits. -/
inductive FactOperation where
  | putEdges (projectId : Nat) (edges : List IndexedEdge)
  | putOccurrences (projectId : Nat) (occurrences : List SymbolOccurrence)
  | deleteTranslationUnits (projectId : Nat) (unitIds : List String)
  | deleteSymbols (projectId : Nat) (symbolIds : List Identifier)
  | removeBuildVariant (projectId : Nat) (name : String)
  /-- Statements that touch neither edges nor occurrences. -/
  | stage (change : ParentTables → ParentTables)

namespace FactTables

variable {τ : Type} (tables : FactTables τ) (projectId : Nat) (store : FactStore τ)

/-- `DELETE FROM symbols`, with its cascade. -/
def deleteSymbolRows (symbolIds : List Identifier) : FactStore τ where
  parents := store.parents.deleteSymbols projectId symbolIds
  facts := tables.deleteSymbols (store.parents.symbolsAmong projectId symbolIds) store.facts

/-- `_delete_orphans` -/
def deleteOrphans : FactStore τ :=
  tables.deleteSymbolRows projectId store (store.parents.orphans projectId)

/-- `_delete_translation_units` -/
def deleteTranslationUnits (unitIds : List String) : FactStore τ :=
  if unitIds = [] then store
  else
    tables.deleteOrphans projectId
      { parents := store.parents.deleteUnits projectId unitIds
        facts := tables.deleteUnits projectId unitIds store.facts }

/-- `remove_build_variant` -/
def removeBuildVariant (name : String) : FactStore τ :=
  if (projectId, name) ∈ store.parents.buildVariants then
    let affected := store.parents.symbolsOfBuild projectId name
    let remaining := tables.deleteTranslationUnits projectId
      { store with parents := store.parents.deleteBuild projectId name }
      (store.parents.unitsOfBuild projectId name)
    tables.deleteOrphans projectId
      { remaining with parents := remaining.parents.refreshSymbols projectId affected }
  else store

def step : FactOperation → Except IntegrityError (FactStore τ)
  | .putEdges projectId edges => do
      return { store with facts := ← tables.putEdges projectId edges store.facts }
  | .putOccurrences projectId occurrences => do
      return { store with facts := ← tables.putOccurrences projectId occurrences store.facts }
  | .deleteTranslationUnits projectId unitIds =>
      return tables.deleteTranslationUnits projectId store unitIds
  | .deleteSymbols projectId symbolIds => return tables.deleteSymbolRows projectId store symbolIds
  | .removeBuildVariant projectId name => return tables.removeBuildVariant projectId store name
  | .stage change => return { store with parents := change store.parents }

def run : FactStore τ → List FactOperation → Except IntegrityError (FactStore τ)
  | store, [] => .ok store
  | store, operation :: operations => do run (← tables.step store operation) operations

end FactTables

/-! ### The plain tables -/

structure PlainFacts where
  edges : List StoredEdge
  occurrences : List OccurrenceRow

/-- `INSERT OR REPLACE`: the row with the key goes, and the new row comes last. -/
def replaceRow {ρ κ : Type} [DecidableEq κ] (key : ρ → κ) (rows : List ρ) (row : ρ) : List ρ :=
  (rows.filter fun other => key other ≠ key row) ++ [row]

/-- The tables with the rows of the views, edges under `INSERT OR IGNORE`. -/
def plainTables (encoding : RowEncoding) : FactTables PlainFacts where
  putEdges projectId edges facts := .ok { facts with
    edges := (edges.map (encoding.edgeRow projectId)).foldl (insertNew StoredEdge.key)
      facts.edges }
  putOccurrences projectId occurrences facts := .ok { facts with
    occurrences := (occurrences.map (encoding.occurrenceRow projectId)).foldl
      (replaceRow OccurrenceRow.key) facts.occurrences }
  deleteUnits projectId unitIds facts :=
    { edges := facts.edges.filter fun row =>
        ¬ (row.projectId = projectId ∧ row.translationUnitId ∈ unitIds)
      occurrences := facts.occurrences.filter fun row =>
        ¬ (row.projectId = projectId ∧ row.translationUnitId ∈ unitIds) }
  deleteSymbols gone facts :=
    { edges := facts.edges.filter fun row =>
        ¬ ((row.projectId, row.sourceId) ∈ gone ∨ (row.projectId, row.targetId) ∈ gone)
      occurrences := facts.occurrences.filter fun row => (row.projectId, row.symbolId) ∉ gone }

/-! ### The interned tables -/

/-- A row of `edge_records`. -/
structure EdgeRecord where
  projectId : Nat
  id : String
  provenanceKey : Nat
  buildVariant : String
  sourceKey : Nat
  targetKey : Nat
  relation : GraphRelation
  deriving DecidableEq

/-- `PRIMARY KEY(project_id, id)` -/
def EdgeRecord.key (record : EdgeRecord) : Nat × String := (record.projectId, record.id)

/-- A row of `occurrence_records`. -/
structure OccurrenceRecord where
  recordKey : Nat
  projectId : Nat
  unitKey : Nat
  id : Identifier
  symbolId : Identifier
  enclosingSymbolId : Option Identifier
  kind : OccurrenceKind
  contextKey : Nat
  startLine : Nat
  endLine : Nat
  startColumn : Nat
  endColumn : Nat
  metadataJson : String
  deriving DecidableEq

/-- `UNIQUE(project_id, unit_key, id)` -/
def OccurrenceRecord.key (record : OccurrenceRecord) : Nat × Nat × Identifier :=
  (record.projectId, record.unitKey, record.id)

/-- A context: project, key of the unit, configuration, build and path. -/
abbrev OccurrenceContext := Nat × Nat × String × String × String

structure InternedFacts where
  /-- `edge_provenance`: project, unit and configuration -/
  provenance : Interned (Nat × String × String)
  /-- `edge_symbols` -/
  symbols : Interned (Nat × Identifier)
  edges : List EdgeRecord
  /-- `occurrence_units` -/
  units : Interned (Nat × String)
  /-- `occurrence_contexts` -/
  contexts : Interned OccurrenceContext
  occurrences : List OccurrenceRecord

namespace InternedFacts

variable (facts : InternedFacts)

/-! #### Views -/

/-- The row of the view `edges` that a record is joined to. -/
def edgeView (record : EdgeRecord) : Option StoredEdge := do
  let provenance ← facts.provenance.valueOf record.provenanceKey
  let source ← facts.symbols.valueOf record.sourceKey
  let target ← facts.symbols.valueOf record.targetKey
  if provenance.1 = record.projectId ∧ source.1 = record.projectId ∧
      target.1 = record.projectId then
    some
      { projectId := record.projectId
        id := record.id
        translationUnitId := provenance.2.1
        buildConfigurationId := provenance.2.2
        buildVariant := record.buildVariant
        sourceId := source.2
        targetId := target.2
        relation := record.relation }
  else none

/-- The row of the view `occurrences` that a record is joined to. -/
def occurrenceView (record : OccurrenceRecord) : Option OccurrenceRow := do
  let unit ← facts.units.valueOf record.unitKey
  let context ← facts.contexts.valueOf record.contextKey
  if unit.1 = record.projectId ∧ context.1 = record.projectId ∧ context.2.1 = record.unitKey then
    some
      { projectId := record.projectId
        translationUnitId := unit.2
        id := record.id
        symbolId := record.symbolId
        enclosingSymbolId := record.enclosingSymbolId
        kind := record.kind
        path := context.2.2.2.2
        startLine := record.startLine
        endLine := record.endLine
        startColumn := record.startColumn
        endColumn := record.endColumn
        buildConfigurationId := context.2.2.1
        buildVariant := context.2.2.2.1
        metadataJson := record.metadataJson }
  else none

/-- What the views show, occurrences in the order of their record keys. -/
def view : PlainFacts where
  edges := facts.edges.filterMap facts.edgeView
  occurrences := (sortBy OccurrenceRecord.recordKey facts.occurrences).filterMap
    facts.occurrenceView

/-! #### Insertions -/

/-- The record that an incoming edge is joined to. -/
def edgeRecord (row : StoredEdge) : Option EdgeRecord := do
  let provenanceKey ← facts.provenance.keyOf
    (row.projectId, row.translationUnitId, row.buildConfigurationId)
  let sourceKey ← facts.symbols.keyOf (row.projectId, row.sourceId)
  let targetKey ← facts.symbols.keyOf (row.projectId, row.targetId)
  return {
    projectId := row.projectId
    id := row.id
    provenanceKey
    buildVariant := row.buildVariant
    sourceKey
    targetKey
    relation := row.relation }

/-- `INSERT INTO edge_records`, of one incoming edge. -/
def insertEdge (records : Except IntegrityError (List EdgeRecord)) (row : StoredEdge) :
    Except IntegrityError (List EdgeRecord) := do
  let records ← records
  match facts.edgeRecord row with
  | none => return records
  | some record =>
      if record.key ∈ records.map EdgeRecord.key then throw .uniqueConstraint
      else return records ++ [record]

variable (variableLimit : Nat)

/-- The statements that intern the columns of incoming edges. -/
def internEdges (rows : List StoredEdge) : InternedFacts :=
  { facts with
    provenance := insertRows variableLimit 3 Interned.intern facts.provenance
      (firstPerKey id (rows.map fun row =>
        (row.projectId, row.translationUnitId, row.buildConfigurationId)))
    symbols := insertRows variableLimit 2 Interned.intern facts.symbols
      (firstPerKey id (rows.flatMap fun row =>
        [(row.projectId, row.sourceId), (row.projectId, row.targetId)])) }

/-- A turn of `_put_edges`: rows whose identifier is stored are left out before the insertion. -/
def putEdgeChunk (projectId : Nat) (facts : InternedFacts) (chunk : List StoredEdge) :
    Except IntegrityError InternedFacts :=
  let unique := firstPerKey (fun row => row.id) chunk
  let existing := (facts.edges.filter fun record =>
    record.projectId = projectId ∧ record.id ∈ unique.map fun row => row.id).map EdgeRecord.id
  let pending := unique.filter fun row => row.id ∉ existing
  if pending = [] then .ok facts
  else do
    let joined := facts.internEdges variableLimit pending
    let edges ← insertRows variableLimit 8 joined.insertEdge (.ok facts.edges) pending
    return { joined with edges }

/-- `INSERT INTO occurrence_contexts … ON CONFLICT DO NOTHING`, of one incoming context. -/
def insertContext (units : Interned (Nat × String)) (contexts : Interned OccurrenceContext)
    (row : Nat × String × String × String × String) : Interned OccurrenceContext :=
  match units.keyOf (row.1, row.2.1) with
  | none => contexts
  | some unitKey => contexts.intern (row.1, unitKey, row.2.2)

/-- `INSERT OR REPLACE INTO occurrence_records`, of one incoming occurrence. -/
def insertOccurrence (units : Interned (Nat × String)) (contexts : Interned OccurrenceContext)
    (records : List OccurrenceRecord) (row : OccurrenceRow) : List OccurrenceRecord :=
  match (do
    let unitKey ← units.keyOf (row.projectId, row.translationUnitId)
    let contextKey ← contexts.keyOf
      (row.projectId, unitKey, row.buildConfigurationId, row.buildVariant, row.path)
    return (unitKey, contextKey)) with
  | none => records
  | some (unitKey, contextKey) =>
      replaceRow OccurrenceRecord.key records
        { recordKey := nextKey (records.map OccurrenceRecord.recordKey)
          projectId := row.projectId
          unitKey
          id := row.id
          symbolId := row.symbolId
          enclosingSymbolId := row.enclosingSymbolId
          kind := row.kind
          contextKey
          startLine := row.startLine
          endLine := row.endLine
          startColumn := row.startColumn
          endColumn := row.endColumn
          metadataJson := row.metadataJson }

/-- A turn of `_put_occurrences`. -/
def putOccurrenceChunk (facts : InternedFacts) (chunk : List OccurrenceRow) : InternedFacts :=
  let units := insertRows variableLimit 2 Interned.intern facts.units
    (firstPerKey id (chunk.map fun row => (row.projectId, row.translationUnitId)))
  let contexts := insertRows variableLimit 5 (insertContext units) facts.contexts
    (firstPerKey id (chunk.map fun row =>
      (row.projectId, row.translationUnitId, row.buildConfigurationId, row.buildVariant, row.path)))
  { facts with
    units
    contexts
    occurrences := insertRows variableLimit 14 (insertOccurrence units contexts) facts.occurrences
      chunk }

/-! #### Deletions -/

/-- `DELETE FROM edge_provenance`, with its cascade. -/
def deleteProvenance (removed : Nat × String × String → Bool) : InternedFacts :=
  { facts with
    provenance := facts.provenance.delete removed
    edges := facts.edges.filter fun record => record.provenanceKey ∉
      facts.provenance.keysOf fun row => removed row && row.1 = record.projectId }

/-- A deletion from `edge_symbols`, with its cascade. -/
def deleteEdgeSymbols (removed : Nat × Identifier → Bool) : InternedFacts :=
  { facts with
    symbols := facts.symbols.delete removed
    edges := facts.edges.filter fun record =>
      let keys := facts.symbols.keysOf fun row => removed row && row.1 = record.projectId
      record.sourceKey ∉ keys ∧ record.targetKey ∉ keys }

/-- A deletion from `occurrence_contexts`, with its cascade. -/
def deleteContexts (removed : OccurrenceContext → Bool) : InternedFacts :=
  { facts with
    contexts := facts.contexts.delete removed
    occurrences := facts.occurrences.filter fun record => record.contextKey ∉
      facts.contexts.keysOf fun row =>
        removed row && row.1 = record.projectId && row.2.1 = record.unitKey }

/-- `DELETE FROM occurrence_units`, with its cascade. -/
def deleteOccurrenceUnits (removed : Nat × String → Bool) : InternedFacts :=
  { facts with units := facts.units.delete removed }.deleteContexts fun context =>
    context.2.1 ∈ facts.units.keysOf fun row => removed row && row.1 = context.1

/-- The statements of `_delete_translation_units`: records go before their parents. -/
def deleteUnits (projectId : Nat) (unitIds : List String) : InternedFacts :=
  let facts := { facts with
    occurrences := facts.occurrences.filter fun record => ¬ (record.projectId = projectId ∧
      record.unitKey ∈ facts.units.keysOf fun row => row.1 = projectId ∧ row.2 ∈ unitIds) }
  let facts := { facts with
    edges := facts.edges.filter fun record => ¬ (record.projectId = projectId ∧
      record.provenanceKey ∈
        facts.provenance.keysOf fun row => row.1 = projectId ∧ row.2.1 ∈ unitIds) }
  (facts.deleteOccurrenceUnits fun row => row.1 = projectId ∧ row.2 ∈ unitIds).deleteProvenance
    fun row => row.1 = projectId ∧ row.2.1 ∈ unitIds

/-- The cascade of deleted rows of `symbols`. -/
def deleteSymbols (gone : List (Nat × Identifier)) : InternedFacts :=
  let facts := { facts with
    occurrences := facts.occurrences.filter fun record =>
      (record.projectId, record.symbolId) ∉ gone }
  facts.deleteEdgeSymbols (· ∈ gone)

end InternedFacts

/-- The tables of keys and records. -/
def internedTables (encoding : RowEncoding) : FactTables InternedFacts where
  putEdges projectId edges facts :=
    (ingestionRowBatches encoding.variableLimit 8 (edges.map (encoding.edgeRow projectId))).foldlM
      (InternedFacts.putEdgeChunk encoding.variableLimit projectId) facts
  putOccurrences projectId occurrences facts :=
    .ok ((ingestionRowBatches encoding.variableLimit 14
      (occurrences.map (encoding.occurrenceRow projectId))).foldl
        (InternedFacts.putOccurrenceChunk encoding.variableLimit) facts)
  deleteUnits projectId unitIds facts := facts.deleteUnits projectId unitIds
  deleteSymbols gone facts := facts.deleteSymbols gone

end CppContextEngine.Storage
