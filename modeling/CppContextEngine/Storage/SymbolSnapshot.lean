import CppContextEngine.Foundation.Bytes
import CppContextEngine.Foundation.Table
import CppContextEngine.Foundation.Text

/-!
# Symbol snapshots

A snapshot is the JSON text of one symbol in one translation unit.  Equal
symbols share one stored text: the fields that name the variant are taken out
of it and put back from the row's columns.  Texts that compress well are stored
as bytes.  The JSON library is a parameter.
-/

namespace CppContextEngine.Storage

open CppContextEngine.Foundation

/-! ## JSON objects -/

/--
`json.loads` and `json.dumps(sort_keys=True)` on objects.  `Value` is a JSON
value up to the order of the keys inside it, and `loads` is `none` for a text
that is no object.
-/
class SnapshotJson where
  Value : Type
  valueEq : DecidableEq Value
  text : String → Value
  loads : String → Option (Table Value)
  dumps : Table Value → String

namespace SnapshotJson

instance [SnapshotJson] : DecidableEq Value := valueEq

/-- `loads(dumps d) = d` for dumps with sorted keys. -/
def RoundTrips [SnapshotJson] : Prop := ∀ document, loads (dumps document) = some document

end SnapshotJson

/-! ## Provenance -/

/-- The provenance columns of a `symbol_variants` row. -/
structure VariantRow where
  id : String
  buildConfigurationId : String
  translationUnitId : String
  buildVariant : String

/-- `_variant_provenance` -/
def variantProvenance (row : VariantRow) : List (String × String) :=
  [("build_configuration_id", row.buildConfigurationId),
    ("translation_unit_id", row.translationUnitId),
    ("build_variant", row.buildVariant),
    ("variant_id", row.id)]

section Split

variable [SnapshotJson]

open SnapshotJson

/-- `document.update(_variant_provenance(row))` -/
def withProvenance (row : VariantRow) (document : Table Value) : Table Value :=
  (variantProvenance row).foldl (fun document field => document.insert field.1 (text field.2))
    document

/-- `for key in provenance: del document[key]` -/
def withoutProvenance (row : VariantRow) (document : Table Value) : Table Value :=
  (variantProvenance row).foldl (fun document field => document.erase field.1) document

/-- `_split_symbol_snapshot`; `none` for a text that is no JSON object. -/
def splitSymbolSnapshot (raw : String) (row : VariantRow) : Option (Bool × String) :=
  (loads raw).map fun document =>
    if (variantProvenance row).any fun field => document[field.1]? ≠ some (text field.2) then
      (false, raw)
    else if raw ≠ dumps document then (false, raw)
    else (true, dumps (withoutProvenance row document))

/-- The part of `_full_variant_snapshot` after decoding. -/
def restoreProvenance (row : VariantRow) (provenanceRemoved : Bool) (raw : String) :
    Option String :=
  if provenanceRemoved then
    (loads raw).map fun document => dumps (withProvenance row document)
  else some raw

theorem getElem?_withoutProvenance (row : VariantRow) (document : Table Value) (key : String) :
    (withoutProvenance row document)[key]? =
      if key ∈ (variantProvenance row).map Prod.fst then none else document[key]? := by
  unfold withoutProvenance
  generalize variantProvenance row = fields
  induction fields generalizing document with
  | nil => simp
  | cons field fields ih =>
      rw [List.foldl_cons, ih, Std.ExtTreeMap.getElem?_erase]
      by_cases hkey : key = field.1
      · simp [hkey]
      · simp only [List.map_cons, List.mem_cons, hkey, Ne.symm hkey, Std.compare_eq_iff_eq,
          ↓reduceIte, false_or]

/-- Fields that were taken out of a document are put back by the columns. -/
theorem with_without_provenance {row : VariantRow} {document : Table Value}
    (h : ∀ field ∈ variantProvenance row, document[field.1]? = some (text field.2)) :
    withProvenance row (withoutProvenance row document) = document := by
  refine Table.ext_getElem? fun key => ?_
  unfold withProvenance
  rw [Table.getElem?_foldl_insert Prod.fst, getElem?_withoutProvenance]
  cases hlast : lastBy Prod.fst key (variantProvenance row) with
  | none =>
      have habsent : key ∉ (variantProvenance row).map Prod.fst := by
        intro hkey
        obtain ⟨field, hfield, rfl⟩ := List.mem_map.mp hkey
        have := (lastBy_isSome_iff Prod.fst).mpr ⟨field, hfield, rfl⟩
        simp [hlast] at this
      simp [habsent]
  | some field =>
      obtain rfl := lastBy_key Prod.fst hlast
      simp [h field (mem_of_lastBy Prod.fst hlast)]

theorem restore_split (hjson : RoundTrips) {raw content : String} {row : VariantRow} {flag : Bool}
    (h : splitSymbolSnapshot raw row = some (flag, content)) :
    restoreProvenance row flag content = some raw := by
  obtain ⟨document, -, hsplit⟩ := Option.map_eq_some_iff.mp h
  split at hsplit
  · cases hsplit
    rfl
  · rename_i hprovenance
    split at hsplit
    · cases hsplit
      rfl
    · rename_i hcanonical
      cases hsplit
      have hfields : ∀ field ∈ variantProvenance row,
          document[field.1]? = some (text field.2) := by
        simpa [List.any_eq_true] using hprovenance
      simp only [restoreProvenance, ↓reduceIte, hjson (withoutProvenance row document),
        Option.map_some, with_without_provenance hfields]
      exact congrArg some (not_not.mp hcanonical).symm

end Split

/-! ## Encoding -/

def symbolSnapshotMaxBytes : Nat := 512 * 1024 * 1024

/-- `_SYMBOL_SNAPSHOT_ZLIB_V1` -/
def zlibV1 : Bytes := [0x43, 0x53, 0x53, 0x01]

/-- The `RuntimeError`s of the snapshot codec. -/
inductive SnapshotError where
  | sizeLimit
  | encoding
  | compressed
  deriving DecidableEq, Repr

def SnapshotError.message : SnapshotError → String
  | sizeLimit => "symbol snapshot exceeds decoded-size limit"
  | encoding => "invalid symbol snapshot encoding"
  | compressed => "invalid compressed symbol snapshot"

/-- A value of the `snapshot_json` column. -/
inductive StoredSnapshot where
  | text (snapshot : String)
  | blob (snapshot : Bytes)
  deriving DecidableEq, Repr

section Encoding

variable [Zlib]

open Zlib

/-- `_encode_symbol_snapshot` -/
def encodeSymbolSnapshot (snapshot : String) : Except SnapshotError StoredSnapshot :=
  if symbolSnapshotMaxBytes < snapshot.length then .error .sizeLimit
  else
    let raw := utf8 snapshot
    if symbolSnapshotMaxBytes < raw.length then .error .sizeLimit
    else
      let encoded := zlibV1 ++ packBigEndian 4 raw.length ++ compress 3 raw
      -- Text remains the encoding of what would not become shorter.
      .ok (if encoded.length < raw.length then .blob encoded else .text snapshot)

/-- `_decode_symbol_snapshot` -/
def decodeSymbolSnapshot : StoredSnapshot → Except SnapshotError String
  | .text snapshot =>
      if symbolSnapshotMaxBytes < snapshot.length ∨
          symbolSnapshotMaxBytes < (utf8 snapshot).length then .error .sizeLimit
      else .ok snapshot
  | .blob snapshot =>
      if ¬ (8 < snapshot.length ∧ snapshot.length ≤ symbolSnapshotMaxBytes ∧
          zlibV1.isPrefixOf snapshot) then .error .encoding
      else
        let decodedSize := unpackBigEndian ((snapshot.take 8).drop 4)
        if ¬ (0 < decodedSize ∧ decodedSize ≤ symbolSnapshotMaxBytes) then .error .sizeLimit
        else
          match decompress decompressobj (snapshot.drop 8) (decodedSize + 1) with
          | none => .error .compressed
          | some (raw, decoder) =>
              if raw.length ≠ decodedSize ∨ eof decoder = false ∨ unusedData decoder ≠ [] ∨
                  unconsumedTail decoder ≠ [] then .error .compressed
              else
                match ofUtf8? raw with
                | none => .error .compressed
                | some snapshot => .ok snapshot

/-- `_full_variant_snapshot`; its inner `none` is a stored text that is no JSON object. -/
def fullVariantSnapshot [SnapshotJson] (row : VariantRow) (stored : StoredSnapshot)
    (provenanceRemoved : Bool) : Except SnapshotError (Option String) :=
  (decodeSymbolSnapshot stored).map (restoreProvenance row provenanceRemoved)

/-- The text is within the size limit. -/
def WithinLimit (snapshot : String) : Prop := (utf8 snapshot).length ≤ symbolSnapshotMaxBytes

variable {snapshot : String}

omit [Zlib] in
theorem WithinLimit.length_le (h : WithinLimit snapshot) :
    snapshot.length ≤ symbolSnapshotMaxBytes :=
  (length_le_utf8 snapshot).trans h

theorem decode_text (h : WithinLimit snapshot) :
    decodeSymbolSnapshot (.text snapshot) = .ok snapshot := by
  have hchars := h.length_le
  unfold WithinLimit at h
  simp only [decodeSymbolSnapshot]
  rw [if_neg]
  omega

theorem decode_blob (hzlib : RoundTrips) (h : WithinLimit snapshot)
    (hshorter : (zlibV1 ++ packBigEndian 4 (utf8 snapshot).length ++
      compress 3 (utf8 snapshot)).length < (utf8 snapshot).length) :
    decodeSymbolSnapshot (.blob (zlibV1 ++ packBigEndian 4 (utf8 snapshot).length ++
      compress 3 (utf8 snapshot))) = .ok snapshot := by
  obtain ⟨hnonempty, hwhole⟩ := hzlib.compress 3 (utf8 snapshot)
  generalize hdata : compress 3 (utf8 snapshot) = data at *
  have hlength : 0 < data.length := List.length_pos_iff.mpr hnonempty
  have hheader : (zlibV1 ++ packBigEndian 4 (utf8 snapshot).length).length = 8 := by
    simp [zlibV1]
  have hsize : unpackBigEndian (packBigEndian 4 (utf8 snapshot).length) =
      (utf8 snapshot).length := by
    apply unpack_pack
    unfold WithinLimit symbolSnapshotMaxBytes at h
    omega
  have hfield : ((zlibV1 ++ packBigEndian 4 (utf8 snapshot).length ++ data).take 8).drop 4 =
      packBigEndian 4 (utf8 snapshot).length := by
    rw [List.take_left' hheader]
    rfl
  have htail : (zlibV1 ++ packBigEndian 4 (utf8 snapshot).length ++ data).drop 8 = data :=
    List.drop_left' hheader
  obtain ⟨decoder, hdecoder, htail', hunused, heof, -⟩ := hwhole _ (Nat.lt_succ_self _)
  rw [List.length_append, hheader] at hshorter
  unfold WithinLimit at h
  simp only [decodeSymbolSnapshot]
  rw [if_neg, hfield, hsize, htail, if_neg, hdecoder]
  · simp [htail', hunused, heof]
  · omega
  · rw [not_not]
    refine ⟨?_, ?_, ?_⟩
    · rw [List.length_append, hheader]
      omega
    · rw [List.length_append, hheader]
      omega
    · simp [zlibV1]

/-- A text within the limit is stored so that it is read back. -/
theorem decode_encode (hzlib : RoundTrips) (h : WithinLimit snapshot) :
    ∃ stored, encodeSymbolSnapshot snapshot = .ok stored ∧
      decodeSymbolSnapshot stored = .ok snapshot := by
  have hchars := h.length_le
  unfold encodeSymbolSnapshot
  rw [if_neg (by omega)]
  simp only [Nat.not_lt.mpr h, ↓reduceIte]
  refine ⟨_, rfl, ?_⟩
  split
  · exact decode_blob hzlib h ‹_›
  · exact decode_text h

theorem encode_beyond_limit (h : ¬ WithinLimit snapshot) :
    encodeSymbolSnapshot snapshot = .error .sizeLimit := by
  unfold encodeSymbolSnapshot WithinLimit at *
  split
  · rfl
  · simp only [Nat.lt_of_not_le h, ↓reduceIte]

/--
What a split leaves of a snapshot restores it exactly, from the plain text and
from its encoding; only a text beyond the size limit is not encoded.
-/
theorem split_snapshot_exact [SnapshotJson] (hzlib : RoundTrips) (hjson : SnapshotJson.RoundTrips)
    (raw : String) (row : VariantRow) (document : Table SnapshotJson.Value)
    (hdocument : SnapshotJson.loads raw = some document) :
    ∃ flag content, splitSymbolSnapshot raw row = some (flag, content) ∧
      restoreProvenance row flag content = some raw ∧
      (WithinLimit content → fullVariantSnapshot row (.text content) flag = .ok (some raw) ∧
        ∃ stored, encodeSymbolSnapshot content = .ok stored ∧
          fullVariantSnapshot row stored flag = .ok (some raw)) ∧
      (¬ WithinLimit content → encodeSymbolSnapshot content = .error .sizeLimit) := by
  obtain ⟨⟨flag, content⟩, hsplit⟩ : ∃ split, splitSymbolSnapshot raw row = some split := by
    unfold splitSymbolSnapshot
    rw [hdocument]
    exact ⟨_, rfl⟩
  have hrestore := restore_split hjson hsplit
  refine ⟨flag, content, hsplit, hrestore, fun h => ⟨?_, ?_⟩, encode_beyond_limit⟩
  · rw [fullVariantSnapshot, decode_text h, Except.map, hrestore]
  · obtain ⟨stored, hencode, hdecode⟩ := decode_encode hzlib h
    refine ⟨stored, hencode, ?_⟩
    rw [fullVariantSnapshot, hdecode, Except.map, hrestore]

end Encoding

/-! ## A sample snapshot -/

def sampleName : String := String.ofList (List.replicate 120 'a')

def sampleRow : VariantRow := ⟨"v1", "cfg", "tu", "default"⟩

def sampleContent : Table String := (∅ : Table String).insert "name" sampleName

def sampleDocument : Table String :=
  (variantProvenance sampleRow).foldl (fun document field => document.insert field.1 field.2)
    sampleContent

def sampleContentText : String := "\x7b" ++ ("\"name\": \"" ++ sampleName ++ "\"\x7d")

def sampleText : String :=
  "\x7b" ++ ("\"build_configuration_id\": \"cfg\", \"build_variant\": \"default\", \"name\": \"" ++
    sampleName ++ "\", \"translation_unit_id\": \"tu\", \"variant_id\": \"v1\"\x7d")

/-- The text of a document other than the two of the sample. -/
def otherText (document : Table String) : String :=
  String.ofList (List.replicate (Encodable.encode document.toList) 'x')

/-- JSON objects of strings, with the real texts of the sample's two documents. -/
def sampleLoads (text : String) : Option (Table String) :=
  if text = sampleText then some sampleDocument
  else if text = sampleContentText then some sampleContent
  else (Encodable.decode text.length).map Table.ofEntries

def sampleDumps (document : Table String) : String :=
  if document = sampleDocument then sampleText
  else if document = sampleContent then sampleContentText
  else otherText document

@[reducible] def sampleJson : SnapshotJson where
  Value := String
  valueEq := inferInstance
  text value := value
  loads := sampleLoads
  dumps := sampleDumps

theorem otherText_ne (document : Table String) (rest : String) :
    otherText document ≠ "\x7b" ++ rest := by
  intro h
  have hmem : '{' ∈ (otherText document).toList := by
    rw [h]
    simp
  rw [otherText, String.toList_ofList] at hmem
  exact absurd (List.eq_of_mem_replicate hmem) (by decide)

theorem sampleJson_roundTrips : @SnapshotJson.RoundTrips sampleJson := by
  intro document
  change sampleLoads (sampleDumps document) = some document
  have hdistinct : sampleContentText ≠ sampleText := by decide
  unfold sampleDumps
  split
  · rename_i hsample
    rw [sampleLoads, if_pos rfl, hsample]
  · split
    · rename_i hcontent
      rw [sampleLoads, if_neg hdistinct, if_pos rfl, hcontent]
    · have hsample : otherText document ≠ sampleText := otherText_ne document _
      have hcontent : otherText document ≠ sampleContentText := otherText_ne document _
      rw [sampleLoads, if_neg hsample, if_neg hcontent]
      simp [otherText, Table.ofEntries_toList]

theorem sampleLoads_sampleText : sampleLoads sampleText = some sampleDocument := by
  rw [sampleLoads, if_pos rfl]

/-- What `zlib.compress(…, level=3)` makes of the sample's content. -/
def samplePacked : Bytes :=
  [120, 94, 171, 86, 202, 75, 204, 77, 85, 178, 82, 80, 74, 28, 32, 160, 84, 11, 0, 138, 211, 48,
    244]

theorem split_snapshot_exact_sample : ∃ flag content,
    @splitSymbolSnapshot sampleJson sampleText sampleRow = some (flag, content) ∧
      @restoreProvenance sampleJson sampleRow flag content = some sampleText := by
  obtain ⟨flag, content, hsplit, hrestore, -⟩ :=
    @split_snapshot_exact (storedZlib (utf8 sampleContentText) samplePacked) sampleJson
      (storedZlib_roundTrips (by decide)) sampleJson_roundTrips sampleText sampleRow
      sampleDocument sampleLoads_sampleText
  exact ⟨flag, content, hsplit, hrestore⟩

end CppContextEngine.Storage
