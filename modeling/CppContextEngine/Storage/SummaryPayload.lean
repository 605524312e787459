import CppContextEngine.Foundation.Bytes
import CppContextEngine.Foundation.Json
import CppContextEngine.Models.Summaries

/-!
# Propagated summary payloads

The facts that propagation adds to one summary are stored as one compressed
JSON document of positional records.  Every decoding checks the metadata that
the encoder returned with it.  The JSON, hashing and compression libraries are
parameters.
-/

namespace CppContextEngine.Storage

open CppContextEngine.Foundation CppContextEngine.Models

/-! ## Limits -/

def summaryPayloadEncoding : String := "zlib-json-v1"
def maxSummaryPayloadCompressedBytes : Nat := 16 * 1024 * 1024
def maxSummaryPayloadUncompressedBytes : Nat := 64 * 1024 * 1024
def maxSummaryPayloadRecords : Nat := 65536

/-- The texts of `SummaryPayloadError`. -/
inductive PayloadError where
  | recordLimit
  | invalidEffect
  | invalidOrigin
  | decompressedSizeLimit
  | compressedSizeLimit
  | unsupportedEncoding
  | invalidCounts
  | malformedStream
  | sizeMismatch
  | hashMismatch
  | documentShape
  | groupShape
  | countMismatch
  | recordShape
  | stringType
  | indexValue
  | accessPathShape
  | malformed
  deriving DecidableEq, Repr

def PayloadError.message : PayloadError → String
  | recordLimit => "summary payload record limit exceeded"
  | invalidEffect => "summary payload contains an invalid propagated effect"
  | invalidOrigin => "summary payload contains an invalid propagated origin"
  | decompressedSizeLimit => "summary payload decompressed-size limit exceeded"
  | compressedSizeLimit => "summary payload compressed-size limit exceeded"
  | unsupportedEncoding => "unsupported summary payload encoding"
  | invalidCounts => "summary payload has invalid record counts"
  | malformedStream => "summary payload compression stream is malformed"
  | sizeMismatch => "summary payload decompressed size does not match metadata"
  | hashMismatch => "summary payload hash does not match its contents"
  | documentShape => "summary payload document has an invalid shape"
  | groupShape => "summary payload record groups have an invalid shape"
  | countMismatch => "summary payload record counts do not match metadata"
  | recordShape => "summary payload record has an invalid shape"
  | stringType => "summary payload string field has an invalid type"
  | indexValue => "summary payload index has an invalid value"
  | accessPathShape => "summary payload access path has an invalid shape"
  | malformed => "summary payload is malformed"

/-! ## Documents -/

/-- A field of a record that the encoder writes. -/
inductive PayloadField where
  | text (value : String)
  | optional (value : Option String)
  | index (value : Option Nat)
  | texts (values : List String)
  deriving DecidableEq

abbrev PayloadRecord := List PayloadField

def PayloadField.json : PayloadField → Json
  | text value => .text value
  | optional none => .null
  | optional (some value) => .text value
  | index none => .null
  | index (some value) => .int value
  | texts values => .list (values.map .text)

def recordJson (record : PayloadRecord) : Json := .list (record.map PayloadField.json)

/-- `json.dumps(…).encode("utf-8")` of the encoder's document, `json.loads` and `sha256`. -/
class PayloadLibrary where
  dumps : List PayloadRecord → List PayloadRecord → Bytes
  loads : Bytes → Except LoadError Json
  hexdigest : Bytes → String

/-- `loads(dumps d) = d` -/
def PayloadLibrary.RoundTrips [PayloadLibrary] : Prop :=
  ∀ effects origins, loads (dumps effects origins) =
    .ok (.list [.list (effects.map recordJson), .list (origins.map recordJson)])

/-! ## Encoding -/

def effectRecord (item : SummaryEffect) : PayloadRecord :=
  [.text item.id, .text (StrEnum.value item.kind), .text (StrEnum.value item.locationKind),
    .text (StrEnum.value item.certainty), .text item.reason, .index item.parameterIndex,
    .texts item.accessPath, .optional item.locationId, .optional item.sourceAccessId,
    .optional item.viaCallsiteId, .optional item.targetSymbolId, .text item.translationUnitId,
    .text item.buildConfigurationId, .text item.buildVariant]

def originRecord (item : SummaryReturnOrigin) : PayloadRecord :=
  [.text item.id, .text (StrEnum.value item.kind), .text (StrEnum.value item.certainty),
    .text item.reason, .optional (item.locationKind.map StrEnum.value),
    .index item.parameterIndex, .texts item.accessPath, .optional item.locationId,
    .optional item.callsiteId, .optional item.viaCallsiteId, .optional item.targetSymbolId,
    .text item.translationUnitId, .text item.buildConfigurationId, .text item.buildVariant]

/-- What the encoder raises: its own error, or whatever the callback does. -/
inductive EncodeError where
  | payload (error : PayloadError)
  | cancelled
  deriving DecidableEq, Repr

/-- The encoder, which counts its calls of `check_cancelled`. -/
abbrev Encoding := StateT Nat (Except EncodeError)

/-- `check_cancelled`, if there is one; it raises at the calls that it selects. -/
abbrev CheckCancelled := Option (Nat → Bool)

def poll : CheckCancelled → Encoding Unit
  | none => pure ()
  | some raises => do
      let call ← get
      set (call + 1)
      if raises call then throw .cancelled

def raiseIf (condition : Prop) [Decidable condition] (error : PayloadError) : Encoding Unit :=
  if condition then throw (.payload error) else pure ()

/-- The records of one group; a local fact or one of another summary is rejected. -/
def encodeRecords {α : Type} (check : CheckCancelled) (summaryId : String)
    (isLocal : α → Bool) (owner : α → String) (record : α → PayloadRecord)
    (error : PayloadError) : Nat → List α → Encoding (List PayloadRecord)
  | _, [] => pure []
  | index, item :: items => do
      poll (if index % 256 = 0 then check else none)
      raiseIf (isLocal item = true ∨ owner item ≠ summaryId) error
      let records ← encodeRecords check summaryId isLocal owner record error (index + 1) items
      return record item :: records

def compressChunkBytes : Nat := 1024 * 1024

/-- The slices that are fed to the compressor. -/
def compressChunks (raw : Bytes) : List Bytes :=
  (List.range ((raw.length + compressChunkBytes - 1) / compressChunkBytes)).map fun chunk =>
    (raw.drop (chunk * compressChunkBytes)).take compressChunkBytes

/-- The metadata and bytes of one encoded payload. -/
structure EncodedPayload where
  effectCount : Nat
  originCount : Nat
  uncompressedBytes : Nat
  payloadHash : String
  payload : Bytes
  deriving DecidableEq

variable [Zlib] [PayloadLibrary]

def compressPayload (check : CheckCancelled) (raw : Bytes) : Encoding Bytes :=
  match check with
  | none => pure (Zlib.compress 6 raw)
  | some _ => do
      (compressChunks raw).forM fun _ => poll check
      poll check
      return Zlib.streamFrom (Zlib.compressobj 6) (compressChunks raw)

/-- `_encode_summary_payload` -/
def encodeSummaryPayload (summaryId : String) (effects : List SummaryEffect)
    (origins : List SummaryReturnOrigin) (check : CheckCancelled) : Encoding EncodedPayload := do
  raiseIf (maxSummaryPayloadRecords < effects.length + origins.length) .recordLimit
  let effectRecords ← encodeRecords check summaryId SummaryEffect.isLocal SummaryEffect.summaryId
    effectRecord .invalidEffect 0 effects
  let originRecords ← encodeRecords check summaryId SummaryReturnOrigin.isLocal
    SummaryReturnOrigin.summaryId originRecord .invalidOrigin 0 origins
  let raw := PayloadLibrary.dumps effectRecords originRecords
  raiseIf (maxSummaryPayloadUncompressedBytes < raw.length) .decompressedSizeLimit
  let compressed ← compressPayload check raw
  raiseIf (maxSummaryPayloadCompressedBytes < compressed.length) .compressedSizeLimit
  return {
    effectCount := effectRecords.length
    originCount := originRecords.length
    uncompressedBytes := raw.length
    payloadHash := PayloadLibrary.hexdigest raw
    payload := compressed }

/-! ## Decoding -/

/-- A column value as `sqlite3` returns it. -/
inductive SqlValue where
  | null
  | integer (value : Int)
  | real (token : String)
  | text (value : String)
  | blob (value : Bytes)
  deriving DecidableEq

/-- An exception inside the decoder. -/
inductive Fault where
  | payload (error : PayloadError)
  | valueError
  | zlibError
  | load (error : LoadError)
  deriving DecidableEq, Repr

/-- What leaves the decoder. -/
inductive DecodeError where
  | payload (error : PayloadError)
  | recursionError
  deriving DecidableEq, Repr

/-- The decoder's `except` clauses; a `RecursionError` is in none of them. -/
def handle : Fault → DecodeError
  | .payload error => .payload error
  | .load .recursionError => .recursionError
  | _ => .payload .malformed

/-- The stored metadata and bytes of one payload. -/
structure StoredPayload where
  encoding : SqlValue
  effectCount : SqlValue
  originCount : SqlValue
  uncompressedBytes : SqlValue
  payloadHash : SqlValue
  payload : SqlValue

def rejectIf (condition : Prop) [Decidable condition] (error : PayloadError) :
    Except Fault Unit :=
  if condition then throw (.payload error) else pure ()

/-- The checks before anything is decompressed. -/
def checkMetadata (stored : StoredPayload) : Except Fault (Nat × Nat × Nat × Bytes) := do
  rejectIf (stored.encoding ≠ .text summaryPayloadEncoding) .unsupportedEncoding
  match stored.effectCount, stored.originCount with
  | .integer effectCount, .integer originCount =>
      rejectIf (effectCount < 0 ∨ originCount < 0) .invalidCounts
      rejectIf (effectCount + originCount > maxSummaryPayloadRecords) .recordLimit
      match stored.uncompressedBytes with
      | .integer uncompressedBytes =>
          rejectIf (¬ (0 ≤ uncompressedBytes ∧
            uncompressedBytes ≤ maxSummaryPayloadUncompressedBytes)) .decompressedSizeLimit
          match stored.payload with
          | .blob payload =>
              rejectIf (maxSummaryPayloadCompressedBytes < payload.length) .compressedSizeLimit
              return (effectCount.toNat, originCount.toNat, uncompressedBytes.toNat, payload)
          | _ => throw (.payload .compressedSizeLimit)
      | _ => throw (.payload .decompressedSizeLimit)
  | _, _ => throw (.payload .invalidCounts)

/-- Decompress within the limit and compare size and hash with the metadata. -/
def inflatePayload (payload : Bytes) (uncompressedBytes : Nat) (payloadHash : SqlValue) :
    Except Fault Bytes :=
  match Zlib.decompress Zlib.decompressobj payload (maxSummaryPayloadUncompressedBytes + 1) with
  | none => throw .zlibError
  | some (raw, decoder) => do
      rejectIf (Zlib.unconsumedTail decoder ≠ [] ∨ maxSummaryPayloadUncompressedBytes < raw.length)
        .decompressedSizeLimit
      match Zlib.flush decoder (maxSummaryPayloadUncompressedBytes + 1 - raw.length) with
      | none => throw .zlibError
      | some (rest, decoder) => do
          let raw := raw ++ rest
          rejectIf (maxSummaryPayloadUncompressedBytes < raw.length) .decompressedSizeLimit
          rejectIf (Zlib.eof decoder = false ∨ Zlib.unusedData decoder ≠ []) .malformedStream
          rejectIf (raw.length ≠ uncompressedBytes) .sizeMismatch
          rejectIf (SqlValue.text (PayloadLibrary.hexdigest raw) ≠ payloadHash) .hashMismatch
          return raw

/-- `_payload_string` -/
def payloadString : Json → Except Fault String
  | .text value => pure value
  | _ => throw (.payload .stringType)

/-- `_payload_optional_string` -/
def payloadOptionalString : Json → Except Fault (Option String)
  | .null => pure none
  | value => some <$> payloadString value

/-- `_payload_optional_index` -/
def payloadOptionalIndex : Json → Except Fault (Option Nat)
  | .null => pure none
  | .int value => if value < 0 then throw (.payload .indexValue) else pure (some value.toNat)
  | _ => throw (.payload .indexValue)

/-- `_payload_string_tuple` -/
def payloadStringTuple : Json → Except Fault (List String)
  | .list items => items.mapM fun
      | .text value => pure value
      | _ => throw (.payload .accessPathShape)
  | _ => throw (.payload .accessPathShape)

/-- An enumeration's constructor on a string field. -/
def payloadEnum (ε : Type) [StrEnum ε] (value : Json) : Except Fault ε := do
  match StrEnum.ofValue? (← payloadString value) with
  | none => throw .valueError
  | some member => pure member

/-- `_summary_effect_from_payload` -/
def summaryEffectFromPayload (summaryId : String) : Json → Except Fault SummaryEffect
  | .list [id, kind, locationKind, certainty, reason, parameterIndex, accessPath, locationId,
      sourceAccessId, viaCallsiteId, targetSymbolId, translationUnitId, buildConfigurationId,
      buildVariant] => do
      let id ← payloadString id
      let kind ← payloadEnum SummaryEffectKind kind
      let locationKind ← payloadEnum MemoryLocationKind locationKind
      let certainty ← payloadEnum DataFlowCertainty certainty
      let reason ← payloadString reason
      let parameterIndex ← payloadOptionalIndex parameterIndex
      let accessPath ← payloadStringTuple accessPath
      let locationId ← payloadOptionalString locationId
      let sourceAccessId ← payloadOptionalString sourceAccessId
      let viaCallsiteId ← payloadOptionalString viaCallsiteId
      let targetSymbolId ← payloadOptionalString targetSymbolId
      let translationUnitId ← payloadString translationUnitId
      let buildConfigurationId ← payloadString buildConfigurationId
      let buildVariant ← payloadString buildVariant
      if h : (isBlank id = false ∧ isBlank summaryId = false ∧ isBlank reason = false) ∧
          Given viaCallsiteId ∧ Given targetSymbolId then
        return {
          id, summaryId, kind, locationKind, certainty, reason, parameterIndex, accessPath,
          locationId, sourceAccessId, isLocal := false, viaCallsiteId, targetSymbolId,
          translationUnitId, buildConfigurationId, buildVariant
          identified := h.1
          provenance := fun _ => h.2 }
      else throw .valueError
  | _ => throw (.payload .recordShape)

/-- `MemoryLocationKind(location_kind) if location_kind else None` -/
def payloadLocationKind : Option String → Except Fault (Option MemoryLocationKind)
  | none | some "" => pure none
  | some text => some <$> payloadEnum MemoryLocationKind (.text text)

/-- `_summary_origin_from_payload` -/
def summaryOriginFromPayload (summaryId : String) : Json → Except Fault SummaryReturnOrigin
  | .list [id, kind, certainty, reason, locationKind, parameterIndex, accessPath, locationId,
      callsiteId, viaCallsiteId, targetSymbolId, translationUnitId, buildConfigurationId,
      buildVariant] => do
      let locationKind ← payloadOptionalString locationKind
      let id ← payloadString id
      let kind ← payloadEnum SummaryReturnOriginKind kind
      let certainty ← payloadEnum DataFlowCertainty certainty
      let reason ← payloadString reason
      let locationKind ← payloadLocationKind locationKind
      let parameterIndex ← payloadOptionalIndex parameterIndex
      let accessPath ← payloadStringTuple accessPath
      let locationId ← payloadOptionalString locationId
      let callsiteId ← payloadOptionalString callsiteId
      let viaCallsiteId ← payloadOptionalString viaCallsiteId
      let targetSymbolId ← payloadOptionalString targetSymbolId
      let translationUnitId ← payloadString translationUnitId
      let buildConfigurationId ← payloadString buildConfigurationId
      let buildVariant ← payloadString buildVariant
      if h : (isBlank id = false ∧ isBlank summaryId = false ∧ isBlank reason = false) ∧
          (kind = .callResult → Given callsiteId) ∧ Given viaCallsiteId ∧ Given targetSymbolId then
        return {
          id, summaryId, kind, certainty, reason, locationKind, parameterIndex, accessPath,
          locationId, callsiteId, isLocal := false, viaCallsiteId, targetSymbolId,
          translationUnitId, buildConfigurationId, buildVariant
          identified := h.1
          callResult := h.2.1
          provenance := fun _ => h.2.2 }
      else throw .valueError
  | _ => throw (.payload .recordShape)

/-- The two groups of a document, with as many records as the metadata says. -/
def documentGroups (effectCount originCount : Nat) : Json → Except Fault (List Json × List Json)
  | .list [.list effectRecords, .list originRecords] => do
      rejectIf (effectRecords.length ≠ effectCount ∨ originRecords.length ≠ originCount)
        .countMismatch
      return (effectRecords, originRecords)
  | .list [_, _] => throw (.payload .groupShape)
  | _ => throw (.payload .documentShape)

/-- The counts and the document text that the metadata vouches for. -/
def verifyPayload (stored : StoredPayload) : Except Fault (Nat × Nat × Bytes) := do
  let (effectCount, originCount, uncompressedBytes, payload) ← checkMetadata stored
  let raw ← inflatePayload payload uncompressedBytes stored.payloadHash
  return (effectCount, originCount, raw)

def decodeRecords (summaryId : String) (stored : StoredPayload) :
    Except Fault (List SummaryEffect × List SummaryReturnOrigin) := do
  let (effectCount, originCount, raw) ← verifyPayload stored
  let document ← (PayloadLibrary.loads raw).mapError Fault.load
  let (effectRecords, originRecords) ← documentGroups effectCount originCount document
  let effects ← effectRecords.mapM (summaryEffectFromPayload summaryId)
  let origins ← originRecords.mapM (summaryOriginFromPayload summaryId)
  return (effects, origins)

/-- `_decode_summary_payload` -/
def decodeSummaryPayload (summaryId : String) (stored : StoredPayload) :
    Except DecodeError (List SummaryEffect × List SummaryReturnOrigin) :=
  (decodeRecords summaryId stored).mapError handle

end CppContextEngine.Storage
