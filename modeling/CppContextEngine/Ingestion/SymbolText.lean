import CppContextEngine.Foundation.Text
import CppContextEngine.Foundation.Utf8
import CppContextEngine.Ingestion.WireKeys

/-!
# Long symbol texts

A symbol's long texts travel behind it, in fragments that are counted and
hashed.  The analyzer cuts them, the client checks them while they arrive, and
either the client or the builder of the batch puts the symbol together.
-/

namespace CppContextEngine.Ingestion

open CppContextEngine.Foundation

def symbolTextChunkKind : String := "symbol_text_chunk_v1"
def symbolTextChunkBytes : Nat := 64 * 1024

/-- `_SYMBOL_TEXT_FIELDS` -/
inductive SymbolTextField where
  | signature
  | documentation
  | sourceText
  deriving DecidableEq, Repr

instance : StrEnum SymbolTextField where
  value
    | .signature => "signature"
    | .documentation => "documentation"
    | .sourceText => "source_text"
  members := [.signature, .documentation, .sourceText]
  mem_members := by rintro (_ | _ | _) <;> simp
  value_injective := by rintro (_ | _ | _) (_ | _ | _) <;> simp

def SymbolTextField.all : List SymbolTextField := [.signature, .documentation, .sourceText]

abbrev SymbolTextField.name (field : SymbolTextField) : String := StrEnum.value field

/-! ## The receiver -/

/-- The errors of `_SymbolTextChunks`. -/
inductive SymbolTextError where
  | unused
  | outOfOrder
  | invalidLength
  | inconsistentDigest
  | invalidDescriptor
  | incomplete
  deriving DecidableEq, Repr

def SymbolTextError.message : SymbolTextError → String
  | unused => "analyzer emitted an unused symbol text chunk"
  | outOfOrder => "analyzer symbol text chunk is out of order or invalid"
  | invalidLength => "analyzer symbol text chunk has an invalid length"
  | inconsistentDigest => "analyzer symbol text digest is inconsistent"
  | invalidDescriptor => "analyzer symbol text descriptor is invalid"
  | incomplete => "analyzer symbol text chunks are incomplete"

/-- The declared length and digest of a text. -/
structure TextDescription where
  field : SymbolTextField
  bytes : Nat
  sha256 : String
  deriving DecidableEq

/-- A symbol some of whose texts have not arrived: `current` is the first of them. -/
structure PendingSymbol where
  symbol : Record
  key : String
  current : TextDescription
  rest : List TextDescription
  parts : List String := []
  index : Nat := 0
  received : Nat := 0
  digested : Bytes := []

/-- `_SymbolTextChunks` -/
structure SymbolTextChunks where
  assemble : Bool
  pending : Option PendingSymbol := none

/-- `len(text) == 64` and only lower case hexadecimal digits. -/
def IsDigest (text : String) : Prop :=
  text.length = 64 ∧ ∀ c ∈ text.toList, c ∈ "0123456789abcdef".toList

instance (text : String) : Decidable (IsDigest text) :=
  have : Decidable (∀ c ∈ text.toList, c ∈ "0123456789abcdef".toList) :=
    List.decidableBAll _ _
  inferInstanceAs (Decidable (_ ∧ _))

def parseDescription (field : SymbolTextField) : Json → Option TextDescription
  | .object entries =>
      let description := Table.ofEntries entries
      match description["bytes"]?, description["sha256"]? with
      | some (.int bytes), some (.text sha256) =>
          if description.keys = ["bytes", "sha256"] ∧ 0 < bytes ∧ IsDigest sha256 then
            some ⟨field, bytes.toNat, sha256⟩
          else none
      | _, _ => none
  | _ => none

/-- The descriptions of a `text_chunks` object, in the order of the fields. -/
def parseDescriptions (record descriptions : Record) : Option (List TextDescription) :=
  if descriptions.isEmpty = false ∧ ∀ name ∈ descriptions.keys,
      name ∈ SymbolTextField.all.map SymbolTextField.name ∧ record[name]?.isNone then
    (SymbolTextField.all.filter fun field => descriptions[field.name]?.isSome).mapM fun field =>
      descriptions[field.name]?.bind (parseDescription field)
  else none

/-- The part of `accept` that a `text_chunks` field starts. -/
def beginSymbol (record : Record) (descriptions : Json) : Except SymbolTextError PendingSymbol :=
  match record["key"]?, descriptions with
  | some (.text key), .object entries =>
      if record.hasText "fact" "symbol" ∧ key ≠ "" then
        match parseDescriptions record (Table.ofEntries entries) with
        | some (current :: rest) =>
            .ok { symbol := record.erase "text_chunks", key, current, rest }
        | _ => .error .invalidDescriptor
      else .error .invalidDescriptor
  | _, _ => .error .invalidDescriptor

def chunkKeys : List String := ["fact", "field", "index", "key", "text", "type"]

/-- The text of a fragment that comes next. -/
def nextFragment (pending : PendingSymbol) (record : Record) : Option String :=
  match record["index"]?, record["text"]? with
  | some (.int index), some (.text text) =>
      if record.keys = chunkKeys ∧ record.hasText "type" "fact" ∧ record.hasText "key" pending.key ∧
          record.hasText "field" pending.current.field.name ∧ index = pending.index then some text
      else none
  | _, _ => none

/-- `if self._assemble: self._parts.append(text)` -/
def keepPart (assemble : Bool) (parts : List String) (text : String) : List String :=
  if assemble then parts ++ [text] else parts

/-- `if self._assemble: self._symbol[field] = "".join(self._parts)` -/
def fillText (assemble : Bool) (symbol : Record) (field : SymbolTextField) (parts : List String) :
    Record :=
  if assemble then symbol.insert field.name (.text (String.join parts)) else symbol

section Accept

variable [NativeLibrary]

/-- The part of `accept` about a fragment. -/
def acceptFragment (assemble : Bool) (pending : PendingSymbol) (record : Record) :
    Except SymbolTextError (Option Record × Option PendingSymbol) :=
  match nextFragment pending record with
  | none => .error .outOfOrder
  | some text => do
      let encoded := utf8 text
      let received := pending.received + encoded.length
      throwIf (¬ (0 < encoded.length ∧ encoded.length ≤ symbolTextChunkBytes) ∨
        pending.current.bytes < received) .invalidLength
      let digested := pending.digested ++ encoded
      let parts := keepPart assemble pending.parts text
      if received = pending.current.bytes then do
        throwIf (NativeLibrary.hexdigest digested ≠ pending.current.sha256) .inconsistentDigest
        let symbol := fillText assemble pending.symbol pending.current.field parts
        match pending.rest with
        | [] => return (some symbol, none)
        | current :: rest => return (none, some { symbol, key := pending.key, current, rest })
      else
        return (none, some
          { pending with parts, index := pending.index + 1, received, digested })

/-- `finish` -/
def SymbolTextChunks.finish (chunks : SymbolTextChunks) : Except SymbolTextError Unit :=
  throwIf (chunks.pending.isSome) .incomplete

/-- `accept` -/
def SymbolTextChunks.accept (chunks : SymbolTextChunks) (record : Record) :
    Except SymbolTextError (Option Record × SymbolTextChunks) :=
  if record.hasText "fact" symbolTextChunkKind then
    match chunks.pending with
    | none => .error .unused
    | some pending => do
        let (result, pending) ← acceptFragment chunks.assemble pending record
        return (result, { chunks with pending })
  else do
    chunks.finish
    match record["text_chunks"]? with
    | none => return (some record, chunks)
    | some descriptions => do
        let pending ← beginSymbol record descriptions
        return (none, { chunks with pending := some pending })

/-- Accept the records one after another and finish; what `accept` has returned for each. -/
def acceptAll (chunks : SymbolTextChunks) :
    List Record → Except SymbolTextError (List (Option Record))
  | [] => do
      chunks.finish
      return []
  | record :: records => do
      let (result, chunks) ← chunks.accept record
      let results ← acceptAll chunks records
      return result :: results

end Accept

/-! ## The emitter -/

/-- A record of one fragment. -/
def fragmentRecord (key : String) (field : SymbolTextField) (index : Nat) (text : String) :
    Record :=
  Table.ofEntries [("type", .text "fact"), ("fact", .text symbolTextChunkKind), ("key", .text key),
    ("field", .text field.name), ("index", .int index), ("text", .text text)]

/-- `while (end < text.size() && …) --end;` -/
def retreat (text : Bytes) : Nat → Nat
  | 0 => 0
  | stop + 1 =>
      match text[stop + 1]? with
      | some byte => if isContinuation byte then retreat text stop else stop + 1
      | none => stop + 1

/-- The loop over `offset`, for so many fragments at most. -/
def emitFragments (key : String) (field : SymbolTextField) (text : Bytes) :
    Nat → Nat → Nat → Option (List Record)
  | 0, offset, _ => if offset < text.length then none else some []
  | fuel + 1, offset, index =>
      if offset < text.length then do
        let stop := retreat text (min (offset + symbolTextChunkBytes) text.length)
        let piece ← ofUtf8? ((text.drop offset).take (stop - offset))
        let records ← emitFragments key field text fuel stop (index + 1)
        return fragmentRecord key field index piece :: records
      else some []

/-- The fields of a symbol that are too long for its record. -/
def longTexts (fact : Record) : List (SymbolTextField × String) :=
  SymbolTextField.all.filterMap fun field =>
    match (fact[field.name]? : Option Json) with
    | some (.text text) =>
        if (utf8 text).length ≤ symbolTextChunkBytes then none else some (field, text)
    | _ => none

section Emit

variable [NativeLibrary]

def describeText (text : String) : Json :=
  .object [("bytes", .int (utf8 text).length), ("sha256", .text (NativeLibrary.hexdigest (utf8 text)))]

/-- `emitSymbolText`, with so many fragments of a field at most. -/
def emitSymbolText (fuel : Nat) (fact : Record) : Option (List Record) :=
  match longTexts fact with
  | [] => some [fact]
  | texts =>
      match fact["key"]? with
      | some (.text key) => do
          let descriptions := texts.map fun (field, text) => (field.name, describeText text)
          let descriptor := (texts.foldl (fun fact text => fact.erase text.1.name) fact).insert
            "text_chunks" (.object descriptions)
          let fragments ← texts.mapM fun (field, text) =>
            emitFragments key field (utf8 text) fuel 0 0
          return descriptor :: fragments.flatten
      | _ => none

end Emit

/-! ## The client and the builder -/

inductive ResponseState where
  | hello
  | begin
  | facts
  | complete
  deriving DecidableEq, Repr

/-- The texts of the errors in `_analyze_stream`, and those of the fragments. -/
inductive ResponseError where
  | handshake
  | noBegin
  | afterCompletion
  | unnegotiated
  | nonFact
  | unsuccessful
  | incompleteResponse
  | chunks (error : SymbolTextError)
  deriving DecidableEq, Repr

def ResponseError.message : ResponseError → String
  | handshake => "analyzer handshake changed between invocations"
  | noBegin => "analyzer response has no matching begin record"
  | afterCompletion => "analyzer emitted records after completion"
  | unnegotiated => "analyzer emitted unnegotiated symbol text chunks"
  | nonFact => "analyzer emitted a non-fact record during analysis"
  | unsuccessful => "analyzer did not complete successfully"
  | incompleteResponse => "analyzer response is incomplete"
  | chunks error => error.message

/-- What one call of `_analyze_stream` is given; `repeatsHandshake` stands for the checks of `hello`. -/
structure Request where
  unitId : String
  chunksNegotiated : Bool
  preserveSymbolChunks : Bool
  repeatsHandshake : Record → Bool

/-- The variables of `_analyze_stream` and what `on_fact` has been given. -/
structure Response where
  state : ResponseState := .hello
  chunks : SymbolTextChunks
  facts : List Record := []

section Analyze

variable [NativeLibrary]

/-- A fact in `_analyze_stream`'s `accept`. -/
def Response.acceptFact (request : Request) (response : Response) (record : Record) :
    Except ResponseError Response := do
  throwIf (request.chunksNegotiated = false ∧ (record.hasText "fact" symbolTextChunkKind ∨
    record["text_chunks"]?.isSome)) .unnegotiated
  let (logical, chunks) ← (response.chunks.accept record).mapError ResponseError.chunks
  let delivered := if request.preserveSymbolChunks then [record] else logical.toList
  return { response with chunks, facts := response.facts ++ delivered }

/-- `accept` of `_analyze_stream` -/
def Response.accept (request : Request) (response : Response) (record : Record) :
    Except ResponseError Response :=
  match response.state with
  | .hello => do
      throwIf (¬ (record.hasText "type" "hello" ∧ request.repeatsHandshake record)) .handshake
      return { response with state := .begin }
  | .begin => do
      throwIf (¬ (record.keys = ["request_id", "type"] ∧
        record.hasText "request_id" request.unitId ∧ record.hasText "type" "begin")) .noBegin
      return { response with state := .facts }
  | .complete => throw .afterCompletion
  | .facts =>
      if record.hasText "type" "fact" then response.acceptFact request record
      else do
        throwIf (¬ (record.hasText "type" "complete" ∧
          record.hasText "request_id" request.unitId)) .nonFact
        match record["success"]? with
        | some (.bool true) => do
            response.chunks.finish.mapError ResponseError.chunks
            return { response with state := .complete }
        | _ => throw .unsuccessful

/-- `_analyze_stream` on the records of the response; the facts it has delivered. -/
def analyzeStream (request : Request) (records : List Record) :
    Except ResponseError (List Record) := do
  let response ← records.foldlM (Response.accept request)
    { chunks := { assemble := !request.preserveSymbolChunks } }
  throwIf (response.state ≠ .complete) .incompleteResponse
  return response.facts

/-- What the builder's symbol loop raises. -/
inductive BuildError where
  | ingest (error : IngestError)
  | chunks (error : SymbolTextError)
  | unusedChunks
  | noSymbol
  deriving DecidableEq, Repr

/-- `while chunks.pending:` over the spool of fragments. -/
def completeSymbol (logical : Option Record) (chunks : SymbolTextChunks) :
    List Record → Except BuildError (Option Record × List Record)
  | [] => do
      chunks.finish.mapError BuildError.chunks
      return (logical, [])
  | fragment :: fragments =>
      match chunks.pending with
      | none => .ok (logical, fragment :: fragments)
      | some _ => do
          let (logical, chunks) ← (chunks.accept fragment).mapError BuildError.chunks
          completeSymbol logical chunks fragments

/-- The loop of `build` over the spooled symbols and fragments. -/
def reassembleSymbols : List Record → List Record → Except BuildError (List Record)
  | [], [] => .ok []
  | [], _ :: _ => .error .unusedChunks
  | fact :: symbols, fragments => do
      let fact ← (restoreWireFact (fun _ => ∅) fact).mapError BuildError.ingest
      let (logical, chunks) ← (SymbolTextChunks.accept { assemble := true } fact).mapError
        BuildError.chunks
      let (logical, fragments) ← completeSymbol logical chunks fragments
      match logical with
      | none => .error .noSymbol
      | some symbol => do
          let logicals ← reassembleSymbols symbols fragments
          return symbol :: logicals

/-- `_fact_records` -/
def factRecords (facts : List Record) (kind : String) : List Record :=
  facts.filter fun fact => fact.hasText "fact" kind

/-- The logical symbols that `build` reads from the facts. -/
def buildSymbols (facts : List Record) : Except BuildError (List Record) :=
  reassembleSymbols (factRecords facts "symbol") (factRecords facts symbolTextChunkKind)

end Analyze

end CppContextEngine.Ingestion
