import Mathlib.Data.String.Basic

/-!
# Byte strings and compression

UTF-8 text and big-endian words as bytes.  The compression library is a
parameter: its objects and calls are those of `zlib`, and what the program
relies on is stated once.
-/

namespace CppContextEngine.Foundation

abbrev Bytes := List UInt8

/-! ## Text -/

/-- `text.encode("utf-8")` -/
def utf8 (text : String) : Bytes := text.toByteArray.data.toList

/-- `data.decode("utf-8")` -/
def ofUtf8? (data : Bytes) : Option String := String.fromUTF8? ⟨data.toArray⟩

@[simp] theorem ofUtf8?_utf8 (text : String) : ofUtf8? (utf8 text) = some text := by
  cases text
  simp [ofUtf8?, utf8, String.fromUTF8?, *]
  rfl

theorem utf8_eq_flatMap (text : String) :
    utf8 text = text.toList.flatMap String.utf8EncodeChar := by
  unfold utf8
  rw [← String.utf8Encode_toList]
  simp [List.utf8Encode]

theorem length_le_utf8 (text : String) : text.length ≤ (utf8 text).length := by
  rw [utf8_eq_flatMap, ← String.length_toList]
  induction text.toList with
  | nil => simp
  | cons c rest ih =>
      have := c.utf8Size_pos
      simp only [List.flatMap_cons, List.length_append, List.length_cons,
        String.length_utf8EncodeChar]
      omega

/-! ## Words -/

/-- `struct.pack(">…", n)` over `width` bytes. -/
def packBigEndian : Nat → Nat → Bytes
  | 0, _ => []
  | width + 1, n => UInt8.ofNat (n / 256 ^ width) :: packBigEndian width n

def unpackBigEndian (data : Bytes) : Nat :=
  data.foldl (fun n byte => 256 * n + byte.toNat) 0

@[simp] theorem length_packBigEndian (width n : Nat) : (packBigEndian width n).length = width := by
  induction width with
  | zero => rfl
  | succ width ih => simp [packBigEndian, ih]

theorem unpack_pack_from (width : Nat) : ∀ start n,
    (packBigEndian width n).foldl (fun n byte => 256 * n + byte.toNat) start =
      256 ^ width * start + n % 256 ^ width := by
  induction width with
  | zero => simp [packBigEndian, Nat.mod_one]
  | succ width ih =>
      intro start n
      rw [packBigEndian, List.foldl_cons, ih, UInt8.toNat_ofNat', Nat.pow_succ 256 width]
      have hsplit : n % (256 ^ width * 256) =
          n % 256 ^ width + 256 ^ width * (n / 256 ^ width % 256) := Nat.mod_mul
      rw [hsplit, Nat.mul_add, ← Nat.mul_assoc, show (2 ^ 8 : Nat) = 256 from rfl]
      omega

theorem unpack_pack {width n : Nat} (h : n < 256 ^ width) :
    unpackBigEndian (packBigEndian width n) = n := by
  unfold unpackBigEndian
  rw [unpack_pack_from, Nat.mod_eq_of_lt h, Nat.mul_zero, Nat.zero_add]

/-! ## Compression -/

/-- The calls of `zlib` that the program makes; `none` is a `zlib.error`. -/
class Zlib where
  compress : Nat → Bytes → Bytes
  Compressor : Type
  compressobj : Nat → Compressor
  feed : Compressor → Bytes → Bytes × Compressor
  finish : Compressor → Bytes
  Decompressor : Type
  decompressobj : Decompressor
  decompress : Decompressor → Bytes → Nat → Option (Bytes × Decompressor)
  flush : Decompressor → Nat → Option (Bytes × Decompressor)
  unconsumedTail : Decompressor → Bytes
  unusedData : Decompressor → Bytes
  eof : Decompressor → Bool

namespace Zlib

variable [Zlib]

/-- Feed the chunks one by one, keeping what comes out, then finish. -/
def streamFrom : Compressor → List Bytes → Bytes
  | compressor, [] => finish compressor
  | compressor, chunk :: chunks =>
      let (written, compressor) := feed compressor chunk
      written ++ streamFrom compressor chunks

/-- A decoder with room to spare returns `raw` and is then at the end of `data`. -/
structure Inflates (data raw : Bytes) : Prop where
  nonempty : data ≠ []
  whole : ∀ limit, raw.length < limit → ∃ decoder,
    decompress decompressobj data limit = some (raw, decoder) ∧
      unconsumedTail decoder = [] ∧ unusedData decoder = [] ∧ eof decoder = true ∧
      ∀ room, ∃ flushed, flush decoder room = some ([], flushed) ∧
        unusedData flushed = [] ∧ eof flushed = true

/-- What was compressed, at once or in chunks, is what a decoder returns. -/
structure RoundTrips : Prop where
  compress : ∀ level raw, Inflates (compress level raw) raw
  stream : ∀ level chunks, Inflates (streamFrom (compressobj level) chunks) chunks.flatten

/-- Calls that left nothing over have turned `data` into `written`. -/
inductive Fed (start : Decompressor) : Bytes → Bytes → Decompressor → Prop where
  | start : Fed start [] [] start
  | call {data written chunk piece : Bytes} {limit : Nat} {decoder decoder' : Decompressor} :
      Fed start data written decoder → decompress decoder chunk limit = some (piece, decoder') →
        unconsumedTail decoder' = [] → Fed start (data ++ chunk) (written ++ piece) decoder'

/--
Decompressing in calls is decompressing at once (a limit of zero is none).  A
call with room to spare returns all that the input has added; one without
returns as much as its limit.
-/
structure Incremental (start : Decompressor) : Prop where
  fresh : ∃ whole, decompress start [] 0 = some ([], whole) ∧
    unusedData whole = unusedData start ∧ eof whole = eof start
  grows : ∀ {data more all whole}, decompress start (data ++ more) 0 = some (all, whole) →
    ∃ written rest part, decompress start data 0 = some (written, part) ∧ all = written ++ rest
  spare : ∀ {data written decoder chunk piece limit whole}, Fed start data written decoder →
    decompress start (data ++ chunk) 0 = some (written ++ piece, whole) → piece.length < limit →
      ∃ decoder', decompress decoder chunk limit = some (piece, decoder') ∧
        unconsumedTail decoder' = [] ∧ unusedData decoder' = unusedData whole ∧
        eof decoder' = eof whole
  full : ∀ {data written decoder chunk piece limit whole}, Fed start data written decoder →
    decompress start (data ++ chunk) 0 = some (written ++ piece, whole) → 0 < limit →
      limit ≤ piece.length → ∃ decoder', decompress decoder chunk limit =
        some (piece.take limit, decoder')
  malformed : ∀ {data written decoder chunk limit}, Fed start data written decoder →
    decompress start (data ++ chunk) 0 = none → 0 < limit →
      decompress decoder chunk limit = none ∨
        ∃ piece decoder', decompress decoder chunk limit = some (piece, decoder') ∧
          piece.length = limit
  flush : ∀ {data written decoder room}, Fed start data written decoder → 0 < room →
    ∃ flushed, flush decoder room = some ([], flushed) ∧
      unusedData flushed = unusedData decoder ∧ eof flushed = eof decoder

end Zlib

/-! ## A stand-in -/

section Stored

variable (known packed : Bytes)

def storedCompress (raw : Bytes) : Bytes := if raw = known then packed else 0 :: raw

def storedDecompress (data : Bytes) (limit : Nat) : Option (Bytes × Bool) :=
  let inflated := if data = packed then some known
    else match data with
      | 0 :: raw => some raw
      | _ => none
  inflated.map fun raw => (raw.take limit, decide (raw.length < limit))

/-- A `zlib` that packs one text as `packed` and stores every other behind a zero byte. -/
@[reducible] def storedZlib : Zlib where
  compress _ := storedCompress known packed
  Compressor := Bytes
  compressobj _ := []
  feed written chunk := ([], written ++ chunk)
  finish := storedCompress known packed
  Decompressor := Bool
  decompressobj := false
  decompress _ := storedDecompress known packed
  flush finished _ := some ([], finished)
  unconsumedTail finished := if finished then [] else [0]
  unusedData _ := []
  eof finished := finished

variable {known packed}

theorem storedDecompress_compress (h : packed.head?.any (· ≠ 0)) {raw : Bytes} {limit : Nat}
    (hlimit : raw.length < limit) :
    storedDecompress known packed (storedCompress known packed raw) limit = some (raw, true) := by
  have htake : raw.take limit = raw := List.take_of_length_le hlimit.le
  unfold storedDecompress storedCompress
  by_cases hraw : raw = known
  · subst hraw
    simp [htake, hlimit]
  · have hne : 0 :: raw ≠ packed := by
      rintro rfl
      simp at h
    simp [hraw, hne, htake, hlimit]

theorem streamFrom_stored (written : Bytes) (chunks : List Bytes) :
    @Zlib.streamFrom (storedZlib known packed) written chunks =
      storedCompress known packed (written ++ chunks.flatten) := by
  induction chunks generalizing written with
  | nil => exact (congrArg (storedCompress known packed) (List.append_nil written)).symm
  | cons chunk chunks ih =>
      rw [List.flatten_cons, ← List.append_assoc]
      exact ih (written ++ chunk)

theorem storedZlib_roundTrips (h : packed.head?.any (· ≠ 0)) :
    @Zlib.RoundTrips (storedZlib known packed) := by
  have hinflates (raw : Bytes) : @Zlib.Inflates (storedZlib known packed)
      (storedCompress known packed raw) raw := by
    refine @Zlib.Inflates.mk (storedZlib known packed) _ _ ?_ fun limit hlimit => ?_
    · unfold storedCompress
      split
      · rintro rfl
        simp at h
      · simp
    · exact ⟨true, storedDecompress_compress h hlimit, rfl, rfl, rfl, fun _ => ⟨true, rfl, rfl, rfl⟩⟩
  refine @Zlib.RoundTrips.mk (storedZlib known packed) (fun _ => hinflates) fun _ chunks => ?_
  rw [streamFrom_stored]
  exact hinflates chunks.flatten

end Stored

end CppContextEngine.Foundation
