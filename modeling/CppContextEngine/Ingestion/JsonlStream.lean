import CppContextEngine.Foundation.Bytes
import CppContextEngine.Foundation.Fallible
import CppContextEngine.Foundation.Json

/-!
# The analyzer's response stream

A response is a stream of JSON objects, one a line, plain or compressed.  It
is decoded as its chunks arrive.  What is delivered depends on the bytes of
the stream only, not on how they were cut into chunks.
-/

namespace CppContextEngine.Ingestion

open CppContextEngine.Foundation

/-! ## The decoder -/

/-- The exceptions of `_JsonlStreamDecoder`. -/
inductive StreamError where
  | wireLimit
  | decodedLimit
  | budget (message : String)
  | recordLimit
  | malformedGzip
  | malformedJsonl
  | notAnObject
  | unterminated
  | raised (error : LoadError)
  | unfinished
  deriving DecidableEq, Repr

def StreamError.message : StreamError → String
  | wireLimit => "analyzer exceeded the compressed output limit"
  | decodedLimit => "analyzer exceeded the decoded output limit"
  | budget message => message
  | recordLimit => "analyzer exceeded the record limit"
  | malformedGzip => "analyzer returned malformed gzip data"
  | malformedJsonl => "analyzer returned malformed JSONL"
  | notAnObject => "analyzer JSONL records must be objects"
  | unterminated => "analyzer returned unterminated JSONL"
  | raised _ | unfinished => ""

/-- `_ResourceBudget` -/
structure ResourceBudget where
  limit : Nat
  message : String
  used : Nat
  positive : 0 < limit
  bounded : used ≤ limit

def ResourceBudget.acquire (budget : ResourceBudget) (amount : Nat) :
    Except StreamError ResourceBudget :=
  if h : budget.used + amount ≤ budget.limit then
    .ok { budget with used := budget.used + amount, bounded := h }
  else .error (.budget budget.message)

/-- `if self._decoded_budget is not None and chunk: self._decoded_budget.acquire(len(chunk))` -/
def acquireDecoded (budget : Option ResourceBudget) (chunk : Bytes) :
    Except StreamError (Option ResourceBudget) :=
  match budget with
  | none => .ok none
  | some budget => if chunk = [] then .ok (some budget) else some <$> budget.acquire chunk.length

structure StreamLimits where
  maxWireBytes : Nat
  maxDecodedBytes : Nat
  maxRecordBytes : Nat

/-- The entries of a JSON object. -/
abbrev Entries := List (String × Json)

section Decoder

variable [Zlib]

/-- `_JsonlStreamDecoder` and what its `on_record` has been given. -/
structure JsonlStreamDecoder where
  decompressor : Option Zlib.Decompressor
  decodedBudget : Option ResourceBudget
  wireBytes : Nat := 0
  decodedBytes : Nat := 0
  record : Bytes := []
  records : List Entries := []

variable (loads : Bytes → Except LoadError Json) (limits : StreamLimits)

/-- `b"\n"` -/
def newline : UInt8 := 10

/-- The object that a complete line holds. -/
def parseRecord (record : Bytes) : Except StreamError Entries := do
  throwIf (record = []) .malformedJsonl
  throwIf (limits.maxRecordBytes < record.length) .recordLimit
  match loads record with
  | .ok (.object entries) => return entries
  | .ok _ => throw .notAnObject
  | .error .unicodeDecodeError | .error .jsonDecodeError => throw .malformedJsonl
  | .error error => throw (.raised error)

/-- The loop over `chunk.split(b"\n")`; only the last part ends no line. -/
def feedParts (decoder : JsonlStreamDecoder) : List Bytes → Except StreamError JsonlStreamDecoder
  | [] => return decoder
  | [part] => do
      let record := decoder.record ++ part
      throwIf (limits.maxRecordBytes < record.length) .recordLimit
      return { decoder with record }
  | part :: next :: parts => do
      let entries ← parseRecord loads limits (decoder.record ++ part)
      feedParts { decoder with record := [], records := decoder.records ++ [entries] }
        (next :: parts)

/-- `_feed_decoded` -/
def feedDecoded (decoder : JsonlStreamDecoder) (chunk : Bytes) :
    Except StreamError JsonlStreamDecoder := do
  let decodedBudget ← acquireDecoded decoder.decodedBudget chunk
  let decodedBytes := decoder.decodedBytes + chunk.length
  throwIf (limits.maxDecodedBytes < decodedBytes) .decodedLimit
  feedParts loads limits { decoder with decodedBudget, decodedBytes } (chunk.splitOn newline)

/-- `while pending:` in `feed`, for so many rounds at most. -/
def feedPending : Nat → JsonlStreamDecoder → Zlib.Decompressor → Bytes →
    Except StreamError JsonlStreamDecoder
  | _, decoder, decompressor, [] => return { decoder with decompressor := some decompressor }
  | 0, _, _, _ => throw .unfinished
  | rounds + 1, decoder, decompressor, pending => do
      let remaining := limits.maxDecodedBytes - decoder.decodedBytes
      match Zlib.decompress decompressor pending (remaining + 1) with
      | none => throw .malformedGzip
      | some (decoded, decompressor) => do
          let decoder ← feedDecoded loads limits decoder decoded
          let pending := Zlib.unconsumedTail decompressor
          throwIf (pending ≠ [] ∧ limits.maxDecodedBytes ≤ decoder.decodedBytes) .decodedLimit
          feedPending rounds decoder decompressor pending

variable (rounds : Nat)

/-- `feed` -/
def JsonlStreamDecoder.feed (decoder : JsonlStreamDecoder) (chunk : Bytes) :
    Except StreamError JsonlStreamDecoder := do
  let wireBytes := decoder.wireBytes + chunk.length
  throwIf (limits.maxWireBytes < wireBytes) .wireLimit
  match decoder.decompressor with
  | none => feedDecoded loads limits { decoder with wireBytes } chunk
  | some decompressor => feedPending loads limits rounds { decoder with wireBytes } decompressor chunk

/-- `if self._decompressor is not None:` in `finish`. -/
def flushPending (decoder : JsonlStreamDecoder) : Except StreamError JsonlStreamDecoder :=
  match decoder.decompressor with
  | none => .ok decoder
  | some decompressor =>
      let remaining := limits.maxDecodedBytes - decoder.decodedBytes
      match Zlib.flush decompressor (remaining + 1) with
      | none => .error .malformedGzip
      | some (decoded, decompressor) => do
          let decoder ← feedDecoded loads limits decoder decoded
          throwIf (Zlib.eof decompressor = false ∨ Zlib.unusedData decompressor ≠ [])
            .malformedGzip
          return { decoder with decompressor := some decompressor }

/-- `finish` -/
def JsonlStreamDecoder.finish (decoder : JsonlStreamDecoder) :
    Except StreamError JsonlStreamDecoder := do
  let decoder ← flushPending loads limits decoder
  throwIf (decoder.record ≠ []) .unterminated
  return decoder

/-- Feed the chunks to a new decoder and finish; the records that were delivered. -/
def decodeStream (decompressor : Option Zlib.Decompressor) (decodedBudget : Option ResourceBudget)
    (chunks : List Bytes) : Except StreamError (List Entries) := do
  let decoder ← chunks.foldlM (JsonlStreamDecoder.feed loads limits rounds)
    { decompressor, decodedBudget }
  let decoder ← decoder.finish loads limits
  return decoder.records

end Decoder

end CppContextEngine.Ingestion
