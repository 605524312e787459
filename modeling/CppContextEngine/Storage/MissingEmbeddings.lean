import CppContextEngine.Foundation.Keyset
import CppContextEngine.Storage.VectorSearch

/-!
# Streams of missing embeddings

An embedding write session streams the variants that have no attachment in a
namespace, in batches that the consumer attaches before it asks for the next
one.  Variants with one snapshot are next to each other and share one text.
-/

namespace CppContextEngine.Storage

open CppContextEngine.Foundation CppContextEngine.Models

/-- The columns of `symbol_variants` that the stream reads; `rowKey` is the `rowid`. -/
structure VariantKeys where
  projectId : Nat
  id : String
  buildVariant : String
  snapshotId : Nat
  rowKey : Nat
  deriving DecidableEq

/-- A row of `symbol_snapshot_contents`, its snapshot decoded. -/
structure SnapshotContent where
  projectId : Nat
  id : Nat
  qualifiedName : String
  signature : String
  documentation : String
  sourceText : String
  deriving DecidableEq

/-- A row of `embedding_attachment_records` without its content. -/
structure AttachmentKey where
  projectId : Nat
  variantId : String
  namespaceId : Nat
  deriving DecidableEq

/-- The tables that a session finds. -/
structure EmbeddingStore extends SymbolStore where
  variantKeyRows : List VariantKeys
  contents : List SnapshotContent
  namespaces : List NamespaceRow
  attachments : List AttachmentKey
  rowKeys : (variantKeyRows.map VariantKeys.rowKey).Nodup
  /-- `PRIMARY KEY(project_id, id)` -/
  idKeys : (variantKeyRows.map fun row => (row.projectId, row.id)).Nodup
  /-- `REFERENCES symbol_snapshot_contents(project_id, id)` -/
  snapshotRows : ∀ row ∈ variantKeyRows,
    ∃ content ∈ contents, content.projectId = row.projectId ∧ content.id = row.snapshotId
  /-- Attachments reference contents, and these their namespace. -/
  attachmentSpaces : ∀ attachment ∈ attachments,
    ∃ row ∈ namespaces, row.id = attachment.namespaceId

/-- One entry of a batch. -/
structure EmbeddingRecord where
  variantId : String
  text : String
  deriving DecidableEq

/-- An entry of `_trusted_embedding_registry`; `missing` is set once it is attached. -/
structure TrustedState where
  records : List EmbeddingRecord
  missing : Option (List EmbeddingRecord) := none
  deriving DecidableEq

/-- What a write session changes. -/
structure EmbeddingSession where
  namespaces : List NamespaceRow
  attachments : List AttachmentKey
  outstanding : Option TrustedState
  deriving DecidableEq

/-- The project, the model and the configuration of a stream. -/
structure EmbeddingTarget where
  projectId : Nat
  model : String
  configuration : String
  deriving DecidableEq

inductive StreamError where
  | batchSize
  | textSize
  | project (error : StoreError)
  | outstanding
  | contentMissing
  deriving DecidableEq, Repr

/-! ## The consumer -/

namespace EmbeddingSession

/-- `_embedding_namespace` -/
def embeddingNamespace (session : EmbeddingSession) (target : EmbeddingTarget) : Option Nat :=
  (session.namespaces.find? fun row => row.projectId = target.projectId ∧
    row.model = target.model ∧ row.configurationId = target.configuration).map NamespaceRow.id

/-- The key that `INTEGER PRIMARY KEY` gives to a new row. -/
def nextNamespace (session : EmbeddingSession) : Nat :=
  (session.namespaces.map NamespaceRow.id).foldr max 0 + 1

/-- `_embedding_namespace(…, create=True)` -/
def createNamespace (session : EmbeddingSession) (target : EmbeddingTarget) :
    EmbeddingSession :=
  match session.embeddingNamespace target with
  | some _ => session
  | none =>
      { session with namespaces := session.namespaces ++
          [⟨session.nextNamespace, target.projectId, target.model, target.configuration⟩] }

/-- `_write_embedding_attachments` -/
def writeAttachments (session : EmbeddingSession) (projectId space : Nat)
    (records : List EmbeddingRecord) : EmbeddingSession :=
  let keys := records.map fun record => (⟨projectId, record.variantId, space⟩ : AttachmentKey)
  { session with attachments :=
      session.attachments ++ keys.filter fun key => key ∉ session.attachments }

/-- `_attach_existing_embeddings`: `pooled` says which texts have a vector in the namespace. -/
def attachExisting (session : EmbeddingSession) (target : EmbeddingTarget)
    (entries : List EmbeddingRecord) (pooled : String → Bool) :
    List EmbeddingRecord × EmbeddingSession :=
  match session.embeddingNamespace target with
  | none => (entries, session)
  | some space =>
      (entries.filter fun record => !pooled record.text,
        session.writeAttachments target.projectId space
          (entries.filter fun record => pooled record.text))

/-- `_put_content_embeddings`, where the vectors are accepted. -/
def putContent (session : EmbeddingSession) (target : EmbeddingTarget)
    (selected : List EmbeddingRecord) : EmbeddingSession :=
  if selected = [] then session
  else
    let session := session.createNamespace target
    match session.embeddingNamespace target with
    | none => session
    | some space => session.writeAttachments target.projectId space selected

end EmbeddingSession

/-- What a consumer does with a batch that it was given.  A call that raises changes nothing. -/
inductive ConsumerCall where
  /-- `_attach_existing_embeddings_trusted` -/
  | attachTrusted (pooled : String → Bool)
  /-- `_put_content_embeddings_trusted` -/
  | putTrusted
  /-- `attach_existing_embeddings` of a part of the batch -/
  | attachExisting (chosen : EmbeddingRecord → Bool) (pooled : String → Bool)
  /-- `put_content_embeddings` of a part of the batch -/
  | putContent (chosen : EmbeddingRecord → Bool)

def ConsumerCall.perform (target : EmbeddingTarget) (batch : List EmbeddingRecord)
    (session : EmbeddingSession) : ConsumerCall → EmbeddingSession
  | attachTrusted pooled =>
      match session.outstanding with
      | some { records, missing := none } =>
          let (missing, session) := session.attachExisting target records pooled
          { session with outstanding :=
              if missing = [] then none else some { records, missing := some missing } }
      | _ => session
  | putTrusted =>
      match session.outstanding with
      | some { records := _, missing := some missing } =>
          { session.putContent target missing with outstanding := none }
      | _ => session
  | attachExisting chosen pooled =>
      (session.attachExisting target (batch.filter chosen) pooled).2
  | putContent chosen => session.putContent target (batch.filter chosen)

/-- The calls for each batch, by its number. -/
abbrev Consumer := Nat → List EmbeddingRecord → List ConsumerCall

/-! ## The stream -/

/-- `_embedding_text_from_snapshot` -/
def SnapshotContent.embeddingText (content : SnapshotContent) (maxTextChars : Nat) : String :=
  String.ofList (("\n".intercalate ([content.qualifiedName, content.signature,
    content.documentation, content.sourceText].filter (· ≠ ""))).toList.take maxTextChars)

/-- `last_snapshot` with `last_row`, and `projected_snapshot` with `projected_text`. -/
structure StreamCursor where
  last : Option (Nat × Nat) := none
  projected : Option (Nat × String) := none
  deriving DecidableEq

namespace EmbeddingStore

variable (store : EmbeddingStore)

/-- The rows of `select`: variants of the builds without an attachment in the namespace. -/
def missingRows (target : EmbeddingTarget) (names : List String) (session : EmbeddingSession) :
    List VariantKeys :=
  store.variantKeyRows.filter fun row => row.projectId = target.projectId ∧
    row.buildVariant ∈ names ∧ ∀ space ∈ session.embeddingNamespace target,
      ⟨row.projectId, row.id, space⟩ ∉ session.attachments

def snapshotText (target : EmbeddingTarget) (maxTextChars snapshot : Nat) : Option String :=
  (store.contents.find? fun content =>
    content.projectId = target.projectId ∧ content.id = snapshot).map
      (·.embeddingText maxTextChars)

/-- The text of a row: the one of the row before it where they share a snapshot. -/
def projectText (target : EmbeddingTarget) (maxTextChars : Nat) (row : VariantKeys)
    (projected : Option (Nat × String)) : Except StreamError String :=
  match projected with
  | some (snapshot, text) =>
      if row.snapshotId ≠ snapshot then
        match store.snapshotText target maxTextChars row.snapshotId with
        | none => .error .contentMissing
        | some text => .ok text
      else .ok text
  | none =>
      match store.snapshotText target maxTextChars row.snapshotId with
      | none => .error .contentMissing
      | some text => .ok text

def projectRows (target : EmbeddingTarget) (maxTextChars : Nat) :
    List VariantKeys → Option (Nat × String) →
      Except StreamError (List EmbeddingRecord × Option (Nat × String))
  | [], projected => .ok ([], projected)
  | row :: rows, projected => do
      let text ← store.projectText target maxTextChars row projected
      let (records, projected) ← projectRows target maxTextChars rows (some (row.snapshotId, text))
      return (⟨row.id, text⟩ :: records, projected)

/-- One round of the loop up to its `yield`. -/
def nextBatch (target : EmbeddingTarget) (names : List String) (batchSize maxTextChars : Nat)
    (session : EmbeddingSession) (cursor : StreamCursor) :
    Except StreamError (Option (List EmbeddingRecord × StreamCursor)) :=
  if session.outstanding ≠ none then .error .outstanding
  else
    let rows := seek VariantKeys.snapshotId VariantKeys.rowKey
      (store.missingRows target names session) batchSize cursor.last
    match rows.getLast? with
    | none => .ok none
    | some last => do
        let (records, projected) ← store.projectRows target maxTextChars rows cursor.projected
        return some (records, { last := some (last.snapshotId, last.rowKey), projected })

/-- How a stream ends. -/
inductive StreamOutcome where
  | finished
  | raised (error : StreamError)
  deriving DecidableEq, Repr

/-- The consumer asks for batches until there are none. -/
def stream (target : EmbeddingTarget) (names : List String) (batchSize maxTextChars : Nat)
    (consumer : Consumer) : Nat → Nat → EmbeddingSession → StreamCursor →
      Option (List (List EmbeddingRecord) × StreamOutcome)
  | 0, _, _, _ => none
  | fuel + 1, number, session, cursor =>
      match store.nextBatch target names batchSize maxTextChars session cursor with
      | .error error => some ([], .raised error)
      | .ok none => some ([], .finished)
      | .ok (some (batch, cursor)) =>
          let issued := { session with outstanding := some { records := batch } }
          let session := (consumer number batch).foldl (ConsumerCall.perform target batch) issued
          (stream target names batchSize maxTextChars consumer fuel (number + 1) session
            cursor).map fun answer => (batch :: answer.1, answer.2)

/-- `configuration_id or model` -/
def configurationOr (model : String) : Option String → String
  | none | some "" => model
  | some configurationId => configurationId

/-- The session that `embedding_write_session` opens. -/
def openSession : EmbeddingSession where
  namespaces := store.namespaces
  attachments := store.attachments
  outstanding := none

/-- `iter_missing_embedding_record_batches` in a new session -/
def iterMissingEmbeddingRecordBatches (model : String) (root : Option String)
    (scope : Option BuildScope) (configurationId : Option String) (batchSize maxTextChars : Int)
    (consumer : Consumer) (fuel : Nat) : Option (List (List EmbeddingRecord) × StreamOutcome) :=
  if batchSize ≤ 0 then some ([], .raised .batchSize)
  else if maxTextChars ≤ 0 then some ([], .raised .textSize)
  else
    match store.projectIdOf root with
    | .error error => some ([], .raised (.project error))
    | .ok projectId =>
        store.stream ⟨projectId, model, configurationOr model configurationId⟩
          (store.scopeNames scope) batchSize.toNat maxTextChars.toNat consumer fuel 0
          store.openSession {}

end EmbeddingStore

end CppContextEngine.Storage
