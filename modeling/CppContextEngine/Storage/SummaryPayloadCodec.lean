import CppContextEngine.Foundation.Fallible
import CppContextEngine.Storage.SummaryPayload
import Mathlib.Tactic.DeriveEncodable

/-!
# The payload codec

What the encoder accepts is decoded exactly.  Whatever else is stored is
decoded to records that match the metadata or rejected with the codec's own
error, unless the document is nested too deeply for the JSON library.
-/

namespace CppContextEngine.Storage

open CppContextEngine.Foundation CppContextEngine.Models

section Codec

variable [Zlib] [PayloadLibrary]

omit [Zlib] [PayloadLibrary] in
theorem rejectIf_eq_ok {condition : Prop} [Decidable condition] {error : PayloadError}
    {done : Unit} : rejectIf condition error = .ok done ↔ ¬ condition := by
  unfold rejectIf
  split <;> simp_all [throw, throwThe, MonadExceptOf.throw, pure, Except.pure]

/-! ## What the metadata vouches for -/

/-- A decoder that may write one byte more than the limit reads all of `payload` as `raw`. -/
def Inflated (payload raw : Bytes) : Prop :=
  ∃ first decoder rest flushed,
    Zlib.decompress Zlib.decompressobj payload (maxSummaryPayloadUncompressedBytes + 1) =
      some (first, decoder) ∧
    Zlib.unconsumedTail decoder = [] ∧
    Zlib.flush decoder (maxSummaryPayloadUncompressedBytes + 1 - first.length) =
      some (rest, flushed) ∧
    Zlib.eof flushed = true ∧ Zlib.unusedData flushed = [] ∧ raw = first ++ rest

/-- The stored metadata and bytes belong to the text `raw`. -/
structure Describes (stored : StoredPayload) (effectCount originCount : Nat) (raw : Bytes) :
    Prop where
  encoding : stored.encoding = .text summaryPayloadEncoding
  effects : stored.effectCount = .integer effectCount
  origins : stored.originCount = .integer originCount
  records : effectCount + originCount ≤ maxSummaryPayloadRecords
  size : stored.uncompressedBytes = .integer raw.length
  bytes : raw.length ≤ maxSummaryPayloadUncompressedBytes
  hash : stored.payloadHash = .text (PayloadLibrary.hexdigest raw)
  payload : ∃ payload, stored.payload = .blob payload ∧
    payload.length ≤ maxSummaryPayloadCompressedBytes ∧ Inflated payload raw

omit [Zlib] [PayloadLibrary] in
theorem checkMetadata_ok_iff {stored : StoredPayload} {effectCount originCount size : Nat}
    {payload : Bytes} :
    checkMetadata stored = .ok (effectCount, originCount, size, payload) ↔
      stored.encoding = .text summaryPayloadEncoding ∧
      stored.effectCount = .integer effectCount ∧ stored.originCount = .integer originCount ∧
      effectCount + originCount ≤ maxSummaryPayloadRecords ∧
      stored.uncompressedBytes = .integer size ∧ size ≤ maxSummaryPayloadUncompressedBytes ∧
      stored.payload = .blob payload ∧ payload.length ≤ maxSummaryPayloadCompressedBytes := by
  obtain ⟨encoding, effects, origins, bytes, hash, blob⟩ := stored
  unfold checkMetadata
  constructor
  · intro h
    obtain ⟨_, hencoding, h⟩ := bind_eq_ok.mp h
    rw [rejectIf_eq_ok, not_not] at hencoding
    split at h
    · rename_i effects origins heffects horigins
      obtain ⟨_, hsign, h⟩ := bind_eq_ok.mp h
      obtain ⟨_, hlimit, h⟩ := bind_eq_ok.mp h
      rw [rejectIf_eq_ok] at hsign hlimit
      split at h
      · rename_i bytes hbytes
        obtain ⟨_, hsize, h⟩ := bind_eq_ok.mp h
        rw [rejectIf_eq_ok, not_not] at hsize
        split at h
        · rename_i blob hblob
          obtain ⟨_, hcompressed, h⟩ := bind_eq_ok.mp h
          rw [rejectIf_eq_ok] at hcompressed
          cases h
          simp only at heffects horigins hbytes hblob
          refine ⟨hencoding, ?_, ?_, by omega, ?_, by omega, hblob, by omega⟩
          · rw [heffects, Int.toNat_of_nonneg (by omega)]
          · rw [horigins, Int.toNat_of_nonneg (by omega)]
          · rw [hbytes, Int.toNat_of_nonneg (by omega)]
        · cases h
      · cases h
    · cases h
  · rintro ⟨rfl, rfl, rfl, hrecords, rfl, hsize, rfl, hpayload⟩
    apply bind_eq_ok.mpr ⟨(), rejectIf_eq_ok.mpr (not_not.mpr rfl), ?_⟩
    apply bind_eq_ok.mpr ⟨(), rejectIf_eq_ok.mpr (by omega), ?_⟩
    apply bind_eq_ok.mpr ⟨(), rejectIf_eq_ok.mpr (by omega), ?_⟩
    apply bind_eq_ok.mpr ⟨(), rejectIf_eq_ok.mpr (by omega), ?_⟩
    exact bind_eq_ok.mpr ⟨(), rejectIf_eq_ok.mpr (by omega), rfl⟩

theorem inflatePayload_ok_iff {payload raw : Bytes} {size : Nat} {hash : SqlValue} :
    inflatePayload payload size hash = .ok raw ↔
      Inflated payload raw ∧ raw.length = size ∧
        raw.length ≤ maxSummaryPayloadUncompressedBytes ∧
        hash = .text (PayloadLibrary.hexdigest raw) := by
  unfold inflatePayload
  constructor
  · intro h
    split at h
    · cases h
    · rename_i first decoder hfirst
      obtain ⟨_, hroom, h⟩ := bind_eq_ok.mp h
      rw [rejectIf_eq_ok, not_or, not_not] at hroom
      split at h
      · cases h
      · rename_i rest flushed hrest
        obtain ⟨_, hlimit, h⟩ := bind_eq_ok.mp h
        obtain ⟨_, hend, h⟩ := bind_eq_ok.mp h
        obtain ⟨_, hsize, h⟩ := bind_eq_ok.mp h
        obtain ⟨_, hhash, h⟩ := bind_eq_ok.mp h
        rw [rejectIf_eq_ok] at hlimit hend hsize hhash
        cases h
        rw [not_or, not_not, Bool.not_eq_false] at hend
        exact ⟨⟨first, decoder, rest, flushed, hfirst, hroom.1, hrest, hend.1, hend.2, rfl⟩,
          not_not.mp hsize, Nat.not_lt.mp hlimit, (not_not.mp hhash).symm⟩
  · rintro ⟨⟨first, decoder, rest, flushed, hfirst, htail, hrest, heof, hunused, rfl⟩, rfl,
      hlimit, rfl⟩
    have hlength : first.length ≤ maxSummaryPayloadUncompressedBytes := by
      rw [List.length_append] at hlimit
      omega
    rw [hfirst]
    apply bind_eq_ok.mpr ⟨(), rejectIf_eq_ok.mpr (by simp [htail, hlength]), ?_⟩
    rw [hrest]
    apply bind_eq_ok.mpr ⟨(), rejectIf_eq_ok.mpr (Nat.not_lt.mpr hlimit), ?_⟩
    apply bind_eq_ok.mpr ⟨(), rejectIf_eq_ok.mpr (by simp [heof, hunused]), ?_⟩
    apply bind_eq_ok.mpr ⟨(), rejectIf_eq_ok.mpr (not_not.mpr rfl), ?_⟩
    exact bind_eq_ok.mpr ⟨(), rejectIf_eq_ok.mpr (not_not.mpr rfl), rfl⟩

theorem verifyPayload_ok_iff {stored : StoredPayload} {effectCount originCount : Nat}
    {raw : Bytes} : verifyPayload stored = .ok (effectCount, originCount, raw) ↔
      Describes stored effectCount originCount raw := by
  unfold verifyPayload
  constructor
  · intro h
    obtain ⟨⟨effects, origins, size, payload⟩, hmetadata, h⟩ := bind_eq_ok.mp h
    obtain ⟨raw, hraw, h⟩ := bind_eq_ok.mp h
    cases h
    obtain ⟨hencoding, heffects, horigins, hrecords, hsize, -, hpayload, hcompressed⟩ :=
      checkMetadata_ok_iff.mp hmetadata
    obtain ⟨hinflated, rfl, hbytes, hhash⟩ := inflatePayload_ok_iff.mp hraw
    exact ⟨hencoding, heffects, horigins, hrecords, hsize, hbytes, hhash, payload, hpayload,
      hcompressed, hinflated⟩
  · intro h
    obtain ⟨payload, hpayload, hcompressed, hinflated⟩ := h.payload
    refine bind_eq_ok.mpr ⟨_, checkMetadata_ok_iff.mpr ⟨h.encoding, h.effects, h.origins,
      h.records, h.size, h.bytes, hpayload, hcompressed⟩, ?_⟩
    exact bind_eq_ok.mpr ⟨raw, inflatePayload_ok_iff.mpr ⟨hinflated, rfl, h.bytes, h.hash⟩, rfl⟩

/-! ## Records -/

section Records

omit [Zlib] [PayloadLibrary]

@[simp] theorem payloadString_text (value : String) :
    payloadString (PayloadField.text value).json = .ok value := rfl

@[simp] theorem payloadOptionalString_optional (value : Option String) :
    payloadOptionalString (PayloadField.optional value).json = .ok value := by
  cases value <;> rfl

@[simp] theorem payloadOptionalIndex_index (value : Option Nat) :
    payloadOptionalIndex (PayloadField.index value).json = .ok value := by
  cases value with
  | none => rfl
  | some value =>
      simp [PayloadField.json, payloadOptionalIndex, pure, Except.pure]

@[simp] theorem payloadStringTuple_texts (values : List String) :
    payloadStringTuple (PayloadField.texts values).json = .ok values :=
  mapM_of_forall fun _ _ => rfl

@[simp] theorem payloadEnum_text {ε : Type} [StrEnum ε] (member : ε) :
    payloadEnum ε (PayloadField.text (StrEnum.value member)).json = .ok member := by
  simp [payloadEnum, bind, Except.bind, pure, Except.pure]

theorem effect_of_record {summaryId : String} {item : SummaryEffect} (hlocal : item.isLocal = false)
    (howner : item.summaryId = summaryId) :
    summaryEffectFromPayload summaryId (recordJson (effectRecord item)) = .ok item := by
  obtain ⟨hvia, htarget⟩ := item.provenance hlocal
  have hidentified := item.identified
  subst howner
  simp only [recordJson, effectRecord, List.map_cons, List.map_nil, summaryEffectFromPayload,
    payloadString_text, payloadEnum_text, payloadOptionalIndex_index, payloadStringTuple_texts,
    payloadOptionalString_optional, bind, Except.bind]
  rw [dif_pos ⟨hidentified, hvia, htarget⟩]
  cases item
  simp only at hlocal
  subst hlocal
  rfl

@[simp] theorem payloadLocationKind_value (kind : Option MemoryLocationKind) :
    payloadLocationKind (kind.map StrEnum.value) = .ok kind := by
  cases kind with
  | none => rfl
  | some kind => cases kind <;> rfl

theorem origin_of_record {summaryId : String} {item : SummaryReturnOrigin}
    (hlocal : item.isLocal = false) (howner : item.summaryId = summaryId) :
    summaryOriginFromPayload summaryId (recordJson (originRecord item)) = .ok item := by
  obtain ⟨hvia, htarget⟩ := item.provenance hlocal
  have hidentified := item.identified
  have hresult := item.callResult
  subst howner
  simp only [recordJson, originRecord, List.map_cons, List.map_nil, summaryOriginFromPayload,
    payloadString_text, payloadEnum_text, payloadOptionalIndex_index, payloadStringTuple_texts,
    payloadOptionalString_optional, payloadLocationKind_value, bind, Except.bind]
  rw [dif_pos ⟨hidentified, hresult, hvia, htarget⟩]
  cases item
  simp only at hlocal
  subst hlocal
  rfl

end Records

/-! ## The encoder -/

section Encoder

omit [Zlib] [PayloadLibrary] in
theorem run_bind_eq_ok {α β : Type} {first : Encoding α} {next : α → Encoding β} {calls : Nat}
    {result : β × Nat} : (first >>= next) calls = .ok result ↔
      ∃ a calls', first calls = .ok (a, calls') ∧ next a calls' = .ok result := by
  change first calls >>= (fun pair => next pair.1 pair.2) = .ok result ↔ _
  rw [bind_eq_ok, Prod.exists]

omit [Zlib] [PayloadLibrary] in
theorem raiseIf_ok {condition : Prop} [Decidable condition] {error : PayloadError} {calls : Nat}
    {result : Unit × Nat} (h : raiseIf condition error calls = .ok result) : ¬ condition := by
  unfold raiseIf at h
  split at h
  · cases h
  · assumption

omit [Zlib] [PayloadLibrary] in
theorem flatten_chunks (size count : Nat) : ∀ raw : Bytes, raw.length ≤ count * size →
    ((List.range count).map fun chunk => (raw.drop (chunk * size)).take size).flatten = raw := by
  induction count with
  | zero =>
      intro raw h
      rw [Nat.zero_mul, Nat.le_zero, List.length_eq_zero_iff] at h
      rw [h]
      rfl
  | succ count ih =>
      intro raw h
      have hrest := ih (raw.drop size) (by rw [List.length_drop, Nat.succ_mul] at *; omega)
      simp only [List.drop_drop] at hrest
      rw [List.range_succ_eq_map, List.map_cons, List.map_map, List.flatten_cons, Nat.zero_mul,
        List.drop_zero]
      calc raw.take size ++ _ = raw.take size ++ raw.drop size := by
            refine congrArg (raw.take size ++ ·) (Eq.trans ?_ hrest)
            simp only [Function.comp_def, Nat.succ_mul, Nat.add_comm]
        _ = raw := List.take_append_drop size raw

omit [Zlib] [PayloadLibrary] in
theorem flatten_compressChunks (raw : Bytes) : (compressChunks raw).flatten = raw := by
  apply flatten_chunks
  unfold compressChunkBytes
  omega

omit [PayloadLibrary] in
/-- A decoder reads back what was compressed, with or without a callback. -/
theorem compressPayload_inflates (hzlib : Zlib.RoundTrips) {check : CheckCancelled} {raw : Bytes}
    {calls : Nat} {result : Bytes × Nat} (h : compressPayload check raw calls = .ok result) :
    Zlib.Inflates result.1 raw := by
  cases check with
  | none =>
      cases h
      exact hzlib.compress 6 raw
  | some raises =>
      obtain ⟨_, calls, -, h⟩ := run_bind_eq_ok.mp h
      obtain ⟨_, calls, -, h⟩ := run_bind_eq_ok.mp h
      cases h
      simpa only [flatten_compressChunks] using hzlib.stream 6 (compressChunks raw)

omit [Zlib] [PayloadLibrary] in
/-- Accepted records are those of propagated facts of the summary. -/
theorem encodeRecords_ok {α : Type} {check : CheckCancelled} {summaryId : String}
    {isLocal : α → Bool} {owner : α → String} {record : α → PayloadRecord} {error : PayloadError}
    {items : List α} : ∀ {index calls : Nat} {result : List PayloadRecord × Nat},
    encodeRecords check summaryId isLocal owner record error index items calls = .ok result →
      result.1 = items.map record ∧
        ∀ item ∈ items, isLocal item = false ∧ owner item = summaryId := by
  induction items with
  | nil =>
      intro index calls result h
      cases h
      simp
  | cons item items ih =>
      intro index calls result h
      rw [encodeRecords, run_bind_eq_ok] at h
      obtain ⟨-, calls, -, h⟩ := h
      obtain ⟨_, calls, hvalid, h⟩ := run_bind_eq_ok.mp h
      obtain ⟨records, calls', hrest, h⟩ := run_bind_eq_ok.mp h
      obtain ⟨rfl, hitems⟩ := ih hrest
      have hitem := raiseIf_ok hvalid
      rw [not_or, not_not, Bool.not_eq_true] at hitem
      cases h
      exact ⟨rfl, List.forall_mem_cons.mpr ⟨hitem, hitems⟩⟩

/-- The row that stores an encoded payload. -/
def EncodedPayload.stored (encoded : EncodedPayload) : StoredPayload where
  encoding := .text summaryPayloadEncoding
  effectCount := .integer encoded.effectCount
  originCount := .integer encoded.originCount
  uncompressedBytes := .integer encoded.uncompressedBytes
  payloadHash := .text encoded.payloadHash
  payload := .blob encoded.payload

omit [PayloadLibrary] in
theorem inflated_of_inflates {payload raw : Bytes} (h : Zlib.Inflates payload raw)
    (hsize : raw.length ≤ maxSummaryPayloadUncompressedBytes) : Inflated payload raw := by
  obtain ⟨decoder, hdecoder, htail, -, -, hflush⟩ :=
    h.whole (maxSummaryPayloadUncompressedBytes + 1) (by omega)
  obtain ⟨flushed, hflushed, hunused, heof⟩ :=
    hflush (maxSummaryPayloadUncompressedBytes + 1 - raw.length)
  exact ⟨raw, decoder, [], flushed, hdecoder, htail, hflushed, heof, hunused,
    (List.append_nil raw).symm⟩

/-- What the encoder returns describes the document of the facts it was given. -/
theorem describes_of_encode (hzlib : Zlib.RoundTrips) {summaryId : String}
    {effects : List SummaryEffect} {origins : List SummaryReturnOrigin} {check : CheckCancelled}
    {calls : Nat} {result : EncodedPayload × Nat}
    (h : encodeSummaryPayload summaryId effects origins check calls = .ok result) :
    Describes result.1.stored effects.length origins.length
        (PayloadLibrary.dumps (effects.map effectRecord) (origins.map originRecord)) ∧
      (∀ item ∈ effects, item.isLocal = false ∧ item.summaryId = summaryId) ∧
      ∀ item ∈ origins, item.isLocal = false ∧ item.summaryId = summaryId := by
  unfold encodeSummaryPayload at h
  obtain ⟨_, calls, hrecords, h⟩ := run_bind_eq_ok.mp h
  obtain ⟨effectRecords, calls, heffects, h⟩ := run_bind_eq_ok.mp h
  obtain ⟨originRecords, calls, horigins, h⟩ := run_bind_eq_ok.mp h
  obtain ⟨_, calls, hbytes, h⟩ := run_bind_eq_ok.mp h
  obtain ⟨compressed, calls, hcompress, h⟩ := run_bind_eq_ok.mp h
  obtain ⟨_, calls, hcompressed, h⟩ := run_bind_eq_ok.mp h
  cases h
  obtain ⟨rfl, hownEffects⟩ := encodeRecords_ok heffects
  obtain ⟨rfl, hownOrigins⟩ := encodeRecords_ok horigins
  have hsize := Nat.not_lt.mp (raiseIf_ok hbytes)
  refine ⟨⟨rfl, ?_, ?_, Nat.not_lt.mp (raiseIf_ok hrecords), rfl, hsize, rfl, compressed, rfl,
    Nat.not_lt.mp (raiseIf_ok hcompressed), ?_⟩, hownEffects, hownOrigins⟩
  · simp [EncodedPayload.stored]
  · simp [EncodedPayload.stored]
  · exact inflated_of_inflates (compressPayload_inflates hzlib hcompress) hsize

end Encoder

/-! ## The decoder -/

section Decoder

omit [Zlib] [PayloadLibrary] in
theorem payloadString_ok_iff {value : Json} {text : String} :
    payloadString value = .ok text ↔ value = (PayloadField.text text).json := by
  cases value <;> simp [payloadString, PayloadField.json, pure, Except.pure, throw, throwThe,
    MonadExceptOf.throw]

omit [Zlib] [PayloadLibrary] in
theorem payloadOptionalString_ok_iff {value : Json} {text : Option String} :
    payloadOptionalString value = .ok text ↔ value = (PayloadField.optional text).json := by
  cases value <;> cases text <;> simp [payloadOptionalString, payloadString, PayloadField.json,
    pure, Except.pure, throw, throwThe, MonadExceptOf.throw, Functor.map, Except.map]

omit [Zlib] [PayloadLibrary] in
theorem payloadOptionalIndex_ok_iff {value : Json} {index : Option Nat} :
    payloadOptionalIndex value = .ok index ↔ value = (PayloadField.index index).json := by
  constructor
  · intro h
    unfold payloadOptionalIndex at h
    split at h
    · cases h
      rfl
    · split at h
      · cases h
      · cases h
        simp only [PayloadField.json, Json.int.injEq]
        omega
    · cases h
  · rintro rfl
    exact payloadOptionalIndex_index index

omit [Zlib] [PayloadLibrary] in
theorem payloadStringTuple_ok_iff {value : Json} {texts : List String} :
    payloadStringTuple value = .ok texts ↔ value = (PayloadField.texts texts).json := by
  constructor
  · intro h
    unfold payloadStringTuple at h
    split at h
    · rename_i items
      rw [mapM_ok_iff] at h
      simp only [PayloadField.json, Json.list.injEq]
      induction h with
      | nil => rfl
      | cons hitem _ ih =>
          rw [List.map_cons, ih]
          split at hitem
          · cases hitem
            rfl
          · cases hitem
    · cases h
  · rintro rfl
    exact payloadStringTuple_texts texts

omit [Zlib] [PayloadLibrary] in
theorem payloadEnum_ok_iff {ε : Type} [StrEnum ε] {value : Json} {member : ε} :
    payloadEnum ε value = .ok member ↔ value = (PayloadField.text (StrEnum.value member)).json := by
  constructor
  · intro h
    obtain ⟨text, htext, h⟩ := bind_eq_ok.mp h
    split at h
    · cases h
    · rename_i found hfound
      cases h
      rw [payloadString_ok_iff.mp htext, StrEnum.value_eq_of_ofValue? hfound]
  · rintro rfl
    exact payloadEnum_text member

omit [Zlib] [PayloadLibrary] in
/-- A record that is decoded is the one that the encoder writes for the effect. -/
theorem effect_of_payload {summaryId : String} {value : Json} {item : SummaryEffect}
    (h : summaryEffectFromPayload summaryId value = .ok item) :
    value = recordJson (effectRecord item) ∧ item.isLocal = false ∧
      item.summaryId = summaryId := by
  unfold summaryEffectFromPayload at h
  split at h
  · obtain ⟨id, hid, h⟩ := bind_eq_ok.mp h
    obtain ⟨kind, hkind, h⟩ := bind_eq_ok.mp h
    obtain ⟨locationKind, hlocationKind, h⟩ := bind_eq_ok.mp h
    obtain ⟨certainty, hcertainty, h⟩ := bind_eq_ok.mp h
    obtain ⟨reason, hreason, h⟩ := bind_eq_ok.mp h
    obtain ⟨parameterIndex, hparameterIndex, h⟩ := bind_eq_ok.mp h
    obtain ⟨accessPath, haccessPath, h⟩ := bind_eq_ok.mp h
    obtain ⟨locationId, hlocationId, h⟩ := bind_eq_ok.mp h
    obtain ⟨sourceAccessId, hsourceAccessId, h⟩ := bind_eq_ok.mp h
    obtain ⟨viaCallsiteId, hviaCallsiteId, h⟩ := bind_eq_ok.mp h
    obtain ⟨targetSymbolId, htargetSymbolId, h⟩ := bind_eq_ok.mp h
    obtain ⟨translationUnitId, htranslationUnitId, h⟩ := bind_eq_ok.mp h
    obtain ⟨buildConfigurationId, hbuildConfigurationId, h⟩ := bind_eq_ok.mp h
    obtain ⟨buildVariant, hbuildVariant, h⟩ := bind_eq_ok.mp h
    split at h
    · cases h
      rw [payloadString_ok_iff.mp hid, payloadEnum_ok_iff.mp hkind,
        payloadEnum_ok_iff.mp hlocationKind, payloadEnum_ok_iff.mp hcertainty,
        payloadString_ok_iff.mp hreason, payloadOptionalIndex_ok_iff.mp hparameterIndex,
        payloadStringTuple_ok_iff.mp haccessPath, payloadOptionalString_ok_iff.mp hlocationId,
        payloadOptionalString_ok_iff.mp hsourceAccessId,
        payloadOptionalString_ok_iff.mp hviaCallsiteId,
        payloadOptionalString_ok_iff.mp htargetSymbolId,
        payloadString_ok_iff.mp htranslationUnitId,
        payloadString_ok_iff.mp hbuildConfigurationId, payloadString_ok_iff.mp hbuildVariant]
      exact ⟨rfl, rfl, rfl⟩
    · cases h
  · cases h

omit [Zlib] [PayloadLibrary] in
theorem payloadLocationKind_ok {text : Option String} {kind : Option MemoryLocationKind}
    (h : payloadLocationKind text = .ok kind) :
    text = kind.map StrEnum.value ∨ text = some "" ∧ kind = none := by
  unfold payloadLocationKind at h
  split at h
  · cases h
    exact .inl rfl
  · cases h
    exact .inr ⟨rfl, rfl⟩
  · rename_i text hne
    cases hmember : payloadEnum MemoryLocationKind (.text text) with
    | error e =>
        rw [hmember] at h
        cases h
    | ok member =>
        rw [hmember] at h
        cases h
        have htext := payloadEnum_ok_iff.mp hmember
        simp only [PayloadField.json, Json.text.injEq] at htext
        exact .inl (congrArg some htext)

omit [Zlib] [PayloadLibrary] in
/-- The same for an origin, whose absent location kind may also be an empty string. -/
theorem origin_of_payload {summaryId : String} {value : Json} {item : SummaryReturnOrigin}
    (h : summaryOriginFromPayload summaryId value = .ok item) :
    (value = recordJson (originRecord item) ∨
        item.locationKind = none ∧ value = recordJson ((originRecord item).set 4 (.text ""))) ∧
      item.isLocal = false ∧ item.summaryId = summaryId := by
  unfold summaryOriginFromPayload at h
  split at h
  · obtain ⟨locationText, hlocationText, h⟩ := bind_eq_ok.mp h
    obtain ⟨id, hid, h⟩ := bind_eq_ok.mp h
    obtain ⟨kind, hkind, h⟩ := bind_eq_ok.mp h
    obtain ⟨certainty, hcertainty, h⟩ := bind_eq_ok.mp h
    obtain ⟨reason, hreason, h⟩ := bind_eq_ok.mp h
    obtain ⟨locationKind, hlocationKind, h⟩ := bind_eq_ok.mp h
    obtain ⟨parameterIndex, hparameterIndex, h⟩ := bind_eq_ok.mp h
    obtain ⟨accessPath, haccessPath, h⟩ := bind_eq_ok.mp h
    obtain ⟨locationId, hlocationId, h⟩ := bind_eq_ok.mp h
    obtain ⟨callsiteId, hcallsiteId, h⟩ := bind_eq_ok.mp h
    obtain ⟨viaCallsiteId, hviaCallsiteId, h⟩ := bind_eq_ok.mp h
    obtain ⟨targetSymbolId, htargetSymbolId, h⟩ := bind_eq_ok.mp h
    obtain ⟨translationUnitId, htranslationUnitId, h⟩ := bind_eq_ok.mp h
    obtain ⟨buildConfigurationId, hbuildConfigurationId, h⟩ := bind_eq_ok.mp h
    obtain ⟨buildVariant, hbuildVariant, h⟩ := bind_eq_ok.mp h
    split at h
    · cases h
      rw [payloadString_ok_iff.mp hid, payloadEnum_ok_iff.mp hkind,
        payloadEnum_ok_iff.mp hcertainty, payloadString_ok_iff.mp hreason,
        payloadOptionalString_ok_iff.mp hlocationText,
        payloadOptionalIndex_ok_iff.mp hparameterIndex,
        payloadStringTuple_ok_iff.mp haccessPath, payloadOptionalString_ok_iff.mp hlocationId,
        payloadOptionalString_ok_iff.mp hcallsiteId,
        payloadOptionalString_ok_iff.mp hviaCallsiteId,
        payloadOptionalString_ok_iff.mp htargetSymbolId,
        payloadString_ok_iff.mp htranslationUnitId,
        payloadString_ok_iff.mp hbuildConfigurationId, payloadString_ok_iff.mp hbuildVariant]
      refine ⟨?_, rfl, rfl⟩
      rcases payloadLocationKind_ok hlocationKind with rfl | ⟨rfl, rfl⟩
      · exact .inl rfl
      · exact .inr ⟨rfl, rfl⟩
    · cases h
  · cases h

/-- What a decoding that returns has found in the payload. -/
structure Decoded (summaryId : String) (stored : StoredPayload) (effects : List SummaryEffect)
    (origins : List SummaryReturnOrigin) : Prop where
  document : ∃ raw originRecords, Describes stored effects.length origins.length raw ∧
    PayloadLibrary.loads raw = .ok (.list
      [.list (effects.map fun item => recordJson (effectRecord item)), .list originRecords]) ∧
    List.Forall₂ (fun record item => record = recordJson (originRecord item) ∨
      item.locationKind = none ∧ record = recordJson ((originRecord item).set 4 (.text "")))
      originRecords origins
  effects : ∀ item ∈ effects, item.isLocal = false ∧ item.summaryId = summaryId
  origins : ∀ item ∈ origins, item.isLocal = false ∧ item.summaryId = summaryId

/-- The decoder returns what the payload holds or raises its own error. -/
def SafeDecoding (summaryId : String) (stored : StoredPayload) : Prop :=
  match decodeSummaryPayload summaryId stored with
  | .ok (effects, origins) => Decoded summaryId stored effects origins
  | .error (.payload _) => True
  | .error .recursionError => False

/-- The payload holds a text that exceeds the recursion limit of `json.loads`. -/
def TooDeep (stored : StoredPayload) : Prop :=
  ∃ effectCount originCount raw, Describes stored effectCount originCount raw ∧
    PayloadLibrary.loads raw = .error .recursionError

omit [Zlib] [PayloadLibrary] in
theorem documentGroups_ok {effectCount originCount : Nat} {document : Json}
    {groups : List Json × List Json}
    (h : documentGroups effectCount originCount document = .ok groups) :
    document = .list [.list groups.1, .list groups.2] ∧
      groups.1.length = effectCount ∧ groups.2.length = originCount := by
  unfold documentGroups at h
  split at h
  · obtain ⟨_, hcounts, h⟩ := bind_eq_ok.mp h
    rw [rejectIf_eq_ok] at hcounts
    cases h
    rw [not_or, not_not, not_not] at hcounts
    exact ⟨rfl, hcounts⟩
  · cases h
  · cases h

omit [Zlib] in
theorem loaded_eq_ok {raw : Bytes} {document : Json} :
    (PayloadLibrary.loads raw).mapError Fault.load = .ok document ↔
      PayloadLibrary.loads raw = .ok document := by
  cases PayloadLibrary.loads raw <;> simp [Except.mapError]

omit [Zlib] [PayloadLibrary] in
theorem effectRecords_of_results {summaryId : String} {records : List Json}
    {effects : List SummaryEffect}
    (h : List.Forall₂ (fun record item => summaryEffectFromPayload summaryId record = .ok item)
      records effects) :
    records = effects.map fun item => recordJson (effectRecord item) := by
  induction h with
  | nil => rfl
  | cons hitem _ ih => rw [List.map_cons, ← ih, (effect_of_payload hitem).1]

theorem decoded_of_ok {summaryId : String} {stored : StoredPayload}
    {effects : List SummaryEffect} {origins : List SummaryReturnOrigin}
    (h : decodeRecords summaryId stored = .ok (effects, origins)) :
    Decoded summaryId stored effects origins := by
  unfold decodeRecords at h
  obtain ⟨⟨effectCount, originCount, raw⟩, hverified, h⟩ := bind_eq_ok.mp h
  obtain ⟨document, hloaded, h⟩ := bind_eq_ok.mp h
  obtain ⟨⟨effectRecords, originRecords⟩, hgroups, h⟩ := bind_eq_ok.mp h
  obtain ⟨_, heffects, h⟩ := bind_eq_ok.mp h
  obtain ⟨_, horigins, h⟩ := bind_eq_ok.mp h
  cases h
  obtain ⟨rfl, rfl, rfl⟩ := documentGroups_ok hgroups
  rw [mapM_ok_iff] at heffects horigins
  have hdescribes := verifyPayload_ok_iff.mp hverified
  rw [heffects.length_eq, horigins.length_eq] at hdescribes
  have hrecords := effectRecords_of_results heffects
  have hownEffects : ∀ item ∈ effects, item.isLocal = false ∧ item.summaryId = summaryId :=
    fun item hitem => by
      obtain ⟨_, hrecord⟩ := exists_of_mem_results heffects hitem
      exact (effect_of_payload hrecord).2
  have hownOrigins : ∀ item ∈ origins, item.isLocal = false ∧ item.summaryId = summaryId :=
    fun item hitem => by
      obtain ⟨_, hrecord⟩ := exists_of_mem_results horigins hitem
      exact (origin_of_payload hrecord).2
  refine ⟨⟨raw, originRecords, hdescribes, ?_, ?_⟩, hownEffects, hownOrigins⟩
  · rw [← hrecords]
    exact loaded_eq_ok.mp hloaded
  · exact horigins.imp fun _ _ hitem => (origin_of_payload hitem).1

/-! ## Both directions -/

/-- What was encoded is decoded as it was. -/
theorem decode_of_encode (hzlib : Zlib.RoundTrips) (hjson : PayloadLibrary.RoundTrips)
    {summaryId : String} {effects : List SummaryEffect} {origins : List SummaryReturnOrigin}
    {check : CheckCancelled} {calls calls' : Nat} {encoded : EncodedPayload}
    (h : encodeSummaryPayload summaryId effects origins check calls = .ok (encoded, calls')) :
    decodeSummaryPayload summaryId encoded.stored = .ok (effects, origins) := by
  obtain ⟨hdescribes, hownEffects, hownOrigins⟩ := describes_of_encode hzlib h
  have heffects : ((effects.map effectRecord).map recordJson).mapM
      (summaryEffectFromPayload summaryId) = .ok effects := by
    rw [List.map_map]
    exact mapM_of_forall fun item hitem =>
      effect_of_record (hownEffects item hitem).1 (hownEffects item hitem).2
  have horigins : ((origins.map originRecord).map recordJson).mapM
      (summaryOriginFromPayload summaryId) = .ok origins := by
    rw [List.map_map]
    exact mapM_of_forall fun item hitem =>
      origin_of_record (hownOrigins item hitem).1 (hownOrigins item hitem).2
  have hgroups : documentGroups effects.length origins.length (.list
      [.list ((effects.map effectRecord).map recordJson),
        .list ((origins.map originRecord).map recordJson)]) =
      .ok ((effects.map effectRecord).map recordJson,
        (origins.map originRecord).map recordJson) := by
    unfold documentGroups
    exact bind_eq_ok.mpr ⟨(), rejectIf_eq_ok.mpr (by simp), rfl⟩
  have hdecoded : decodeRecords summaryId encoded.stored = .ok (effects, origins) := by
    apply bind_eq_ok.mpr ⟨_, verifyPayload_ok_iff.mpr hdescribes, ?_⟩
    apply bind_eq_ok.mpr ⟨_, loaded_eq_ok.mpr (hjson _ _), ?_⟩
    apply bind_eq_ok.mpr ⟨_, hgroups, ?_⟩
    apply bind_eq_ok.mpr ⟨_, heffects, ?_⟩
    exact bind_eq_ok.mpr ⟨_, horigins, rfl⟩
  rw [decodeSummaryPayload, hdecoded]
  rfl

/-- A step whose failures the decoder turns into its own error. -/
def Handled {α : Type} (step : Except Fault α) : Prop := step ≠ .error (.load .recursionError)

section Handled

omit [Zlib] [PayloadLibrary]

variable {α β : Type}

theorem Handled.bind {first : Except Fault α} {next : α → Except Fault β} (h : Handled first)
    (hnext : ∀ a, Handled (next a)) : Handled (first >>= next) := by
  cases first with
  | error fault => simpa [Handled, Bind.bind, Except.bind] using h
  | ok a => exact hnext a

theorem handled_ok (a : α) : Handled (.ok a) := by simp [Handled]

theorem handled_payload (error : PayloadError) : Handled (.error (.payload error) : Except Fault α) := by
  simp [Handled]

theorem handled_rejectIf (condition : Prop) [Decidable condition] (error : PayloadError) :
    Handled (rejectIf condition error) := by
  unfold rejectIf
  split
  · exact handled_payload error
  · exact handled_ok ()

theorem handled_mapM {f : β → Except Fault α} (h : ∀ b, Handled (f b)) (items : List β) :
    Handled (items.mapM f) := by
  induction items with
  | nil => exact handled_ok []
  | cons item items ih =>
      rw [List.mapM_cons]
      exact (h item).bind fun _ => ih.bind fun _ => handled_ok _

theorem handled_payloadString (value : Json) : Handled (payloadString value) := by
  unfold payloadString
  split
  · exact handled_ok _
  · exact handled_payload _

theorem handled_payloadOptionalString (value : Json) : Handled (payloadOptionalString value) := by
  cases value <;> simp [Handled, payloadOptionalString, payloadString, Functor.map, Except.map,
    pure, Except.pure, throw, throwThe, MonadExceptOf.throw]

theorem handled_payloadOptionalIndex (value : Json) : Handled (payloadOptionalIndex value) := by
  unfold payloadOptionalIndex
  split
  · exact handled_ok _
  · split
    · exact handled_payload _
    · exact handled_ok _
  · exact handled_payload _

theorem handled_payloadStringTuple (value : Json) : Handled (payloadStringTuple value) := by
  unfold payloadStringTuple
  split
  · apply handled_mapM
    intro item
    split
    · exact handled_ok _
    · exact handled_payload _
  · exact handled_payload _

theorem handled_payloadEnum (ε : Type) [StrEnum ε] (value : Json) :
    Handled (payloadEnum ε value) := by
  apply (handled_payloadString value).bind
  intro text
  split
  · simp [Handled, throw, throwThe, MonadExceptOf.throw]
  · exact handled_ok _

theorem handled_payloadLocationKind (text : Option String) :
    Handled (payloadLocationKind text) := by
  unfold payloadLocationKind
  split
  · exact handled_ok _
  · exact handled_ok _
  · rw [map_eq_pure_bind]
    exact (handled_payloadEnum _ _).bind fun _ => handled_ok _

theorem handled_effect (summaryId : String) (record : Json) :
    Handled (summaryEffectFromPayload summaryId record) := by
  unfold summaryEffectFromPayload
  split
  · apply (handled_payloadString _).bind fun _ => ?_
    apply (handled_payloadEnum _ _).bind fun _ => ?_
    apply (handled_payloadEnum _ _).bind fun _ => ?_
    apply (handled_payloadEnum _ _).bind fun _ => ?_
    apply (handled_payloadString _).bind fun _ => ?_
    apply (handled_payloadOptionalIndex _).bind fun _ => ?_
    apply (handled_payloadStringTuple _).bind fun _ => ?_
    apply (handled_payloadOptionalString _).bind fun _ => ?_
    apply (handled_payloadOptionalString _).bind fun _ => ?_
    apply (handled_payloadOptionalString _).bind fun _ => ?_
    apply (handled_payloadOptionalString _).bind fun _ => ?_
    apply (handled_payloadString _).bind fun _ => ?_
    apply (handled_payloadString _).bind fun _ => ?_
    apply (handled_payloadString _).bind fun _ => ?_
    split
    · exact handled_ok _
    · simp [Handled, throw, throwThe, MonadExceptOf.throw]
  · exact handled_payload _

theorem handled_origin (summaryId : String) (record : Json) :
    Handled (summaryOriginFromPayload summaryId record) := by
  unfold summaryOriginFromPayload
  split
  · apply (handled_payloadOptionalString _).bind fun _ => ?_
    apply (handled_payloadString _).bind fun _ => ?_
    apply (handled_payloadEnum _ _).bind fun _ => ?_
    apply (handled_payloadEnum _ _).bind fun _ => ?_
    apply (handled_payloadString _).bind fun _ => ?_
    apply (handled_payloadLocationKind _).bind fun _ => ?_
    apply (handled_payloadOptionalIndex _).bind fun _ => ?_
    apply (handled_payloadStringTuple _).bind fun _ => ?_
    apply (handled_payloadOptionalString _).bind fun _ => ?_
    apply (handled_payloadOptionalString _).bind fun _ => ?_
    apply (handled_payloadOptionalString _).bind fun _ => ?_
    apply (handled_payloadOptionalString _).bind fun _ => ?_
    apply (handled_payloadString _).bind fun _ => ?_
    apply (handled_payloadString _).bind fun _ => ?_
    apply (handled_payloadString _).bind fun _ => ?_
    split
    · exact handled_ok _
    · simp [Handled, throw, throwThe, MonadExceptOf.throw]
  · exact handled_payload _

theorem handled_documentGroups (effectCount originCount : Nat) (document : Json) :
    Handled (documentGroups effectCount originCount document) := by
  unfold documentGroups
  split
  · exact (handled_rejectIf _ _).bind fun _ => handled_ok _
  · exact handled_payload _
  · exact handled_payload _

theorem handled_checkMetadata (stored : StoredPayload) : Handled (checkMetadata stored) := by
  unfold checkMetadata
  apply (handled_rejectIf _ _).bind fun _ => ?_
  split
  · apply (handled_rejectIf _ _).bind fun _ => ?_
    apply (handled_rejectIf _ _).bind fun _ => ?_
    split
    · apply (handled_rejectIf _ _).bind fun _ => ?_
      split
      · exact (handled_rejectIf _ _).bind fun _ => handled_ok _
      · exact handled_payload _
    · exact handled_payload _
  · exact handled_payload _

end Handled

theorem handled_verifyPayload (stored : StoredPayload) : Handled (verifyPayload stored) := by
  unfold verifyPayload
  refine (handled_checkMetadata stored).bind fun metadata => Handled.bind ?_ fun _ => handled_ok _
  unfold inflatePayload
  split
  · simp [Handled, throw, throwThe, MonadExceptOf.throw]
  · apply (handled_rejectIf _ _).bind fun _ => ?_
    split
    · simp [Handled, throw, throwThe, MonadExceptOf.throw]
    · apply (handled_rejectIf _ _).bind fun _ => ?_
      apply (handled_rejectIf _ _).bind fun _ => ?_
      apply (handled_rejectIf _ _).bind fun _ => ?_
      exact (handled_rejectIf _ _).bind fun _ => handled_ok _

/-- Only a text that is too deep gets an exception of another kind out of the decoder. -/
theorem handled_decodeRecords_iff (summaryId : String) (stored : StoredPayload) :
    Handled (decodeRecords summaryId stored) ↔ ¬ TooDeep stored := by
  have hrest (effectCount originCount : Nat) (document : Json) :
      Handled (do
        let records ← documentGroups effectCount originCount document
        let effects ← records.1.mapM (summaryEffectFromPayload summaryId)
        let origins ← records.2.mapM (summaryOriginFromPayload summaryId)
        return (effects, origins)) :=
    (handled_documentGroups _ _ _).bind fun _ => (handled_mapM (handled_effect summaryId) _).bind
      fun _ => (handled_mapM (handled_origin summaryId) _).bind fun _ => handled_ok _
  cases hverified : verifyPayload stored with
  | error fault =>
      have hfault : decodeRecords summaryId stored = .error fault := by
        rw [decodeRecords, hverified]
        rfl
      have hnone : ¬ TooDeep stored := by
        rintro ⟨effectCount, originCount, raw, hdescribes, -⟩
        rw [verifyPayload_ok_iff.mpr hdescribes] at hverified
        cases hverified
      have hhandled := handled_verifyPayload stored
      rw [hverified] at hhandled
      rw [hfault]
      exact ⟨fun _ => hnone, fun _ h => hhandled (by cases h; rfl)⟩
  | ok verified =>
      obtain ⟨effectCount, originCount, raw⟩ := verified
      have hdescribes := verifyPayload_ok_iff.mp hverified
      rw [decodeRecords, hverified]
      change Handled ((PayloadLibrary.loads raw).mapError Fault.load >>= _) ↔ _
      cases hloaded : PayloadLibrary.loads raw with
      | ok document =>
          refine ⟨fun _ => ?_, fun _ => hrest effectCount originCount document⟩
          rintro ⟨effectCount', originCount', raw', hdescribes', herror⟩
          cases hverified.symm.trans (verifyPayload_ok_iff.mpr hdescribes')
          rw [hloaded] at herror
          cases herror
      | error error =>
          constructor
          · rintro hhandled ⟨effectCount', originCount', raw', hdescribes', herror⟩
            cases hverified.symm.trans (verifyPayload_ok_iff.mpr hdescribes')
            rw [hloaded] at herror
            cases herror
            exact hhandled rfl
          · intro hshallow hraised
            cases hraised
            exact hshallow ⟨effectCount, originCount, raw, hdescribes, hloaded⟩

theorem safeDecoding_iff (summaryId : String) (stored : StoredPayload) :
    SafeDecoding summaryId stored ↔ ¬ TooDeep stored := by
  rw [← handled_decodeRecords_iff summaryId stored]
  unfold SafeDecoding decodeSummaryPayload
  cases hdecoded : decodeRecords summaryId stored with
  | ok facts => simpa [Handled, Except.mapError] using decoded_of_ok hdecoded
  | error fault =>
      cases fault with
      | load error => cases error <;> simp [Handled, Except.mapError, handle]
      | _ => simp [Handled, Except.mapError, handle]

end Decoder

/-- What the encoder accepts comes back unchanged, and the decoder returns what a
payload holds or raises its own error just where the payload's text is not too deep. -/
theorem payload_codec_exact (hzlib : Zlib.RoundTrips) (hjson : PayloadLibrary.RoundTrips) :
    (∀ summaryId effects origins check calls encoded calls',
      encodeSummaryPayload summaryId effects origins check calls = .ok (encoded, calls') →
        decodeSummaryPayload summaryId encoded.stored = .ok (effects, origins)) ∧
      ∀ summaryId stored, SafeDecoding summaryId stored ↔ ¬ TooDeep stored := by
  refine ⟨?_, safeDecoding_iff⟩
  intro summaryId effects origins check calls encoded calls' h
  exact decode_of_encode hzlib hjson h

end Codec

/-! ## A library for one document -/

section OneDocument

deriving instance Encodable for PayloadField

abbrev Groups := List PayloadRecord × List PayloadRecord

def documentOf (groups : Groups) : Json :=
  .list [.list (groups.1.map recordJson), .list (groups.2.map recordJson)]

variable (groups : Groups) (text deep : Bytes) (hash : String)

/-- The text of the one document; any other is written as its number. -/
def oneDumps (other : Groups) : Bytes :=
  if other = groups then text else 1 :: List.replicate (Encodable.encode other) 0

def oneLoads (raw : Bytes) : Except LoadError Json :=
  if raw = text then .ok (documentOf groups)
  else if raw = deep then .error .recursionError
  else match raw with
    | 1 :: digits => match Encodable.decode (α := Groups) digits.length with
      | some other => .ok (documentOf other)
      | none => .error .jsonDecodeError
    | _ => .error .jsonDecodeError

@[reducible] def oneLibrary : PayloadLibrary where
  dumps effects origins := oneDumps groups text (effects, origins)
  loads := oneLoads groups text deep
  hexdigest _ := hash

variable {groups text deep hash}

theorem oneLibrary_roundTrips (htext : text.head? ≠ some 1) (hdeep : deep.head? ≠ some 1) :
    @PayloadLibrary.RoundTrips (oneLibrary groups text deep hash) := by
  intro effects origins
  change oneLoads groups text deep (oneDumps groups text (effects, origins)) =
    .ok (documentOf (effects, origins))
  unfold oneDumps
  split
  · rename_i hgroups
    unfold oneLoads
    rw [if_pos rfl, hgroups]
  · have hother (known : Bytes) (h : known.head? ≠ some 1) :
        1 :: List.replicate (Encodable.encode (effects, origins)) 0 ≠ known := by
      rintro rfl
      exact h rfl
    unfold oneLoads
    rw [if_neg (hother text htext), if_neg (hother deep hdeep)]
    simp

end OneDocument

/-! ## A text that is nested too deeply -/

/-- `b"[" * 100000` -/
@[irreducible] def deepText : Bytes := List.replicate 100000 91

/-- `zlib.compress(b"[" * 100000, level=6)` -/
def deepPacked : Bytes :=
  [120, 156, 237, 193, 49, 1, 0, 0, 0, 194, 160, 160, 235, 223, 195, 26, 30, 64, 1] ++
    List.replicate 96 0 ++ [175, 6, 109, 7, 226, 247]

def deepHash : String := "13f86ea1e7edd116d18d4ba6c6fa114cd3c927516182d24259623874955d21d1"

def deepStored : StoredPayload where
  encoding := .text summaryPayloadEncoding
  effectCount := .integer 0
  originCount := .integer 0
  uncompressedBytes := .integer 100000
  payloadHash := .text deepHash
  payload := .blob deepPacked

abbrev deepZlib : Zlib := storedZlib deepText deepPacked
abbrev deepLibrary : PayloadLibrary := oneLibrary ([], []) (utf8 "[[],[]]") deepText deepHash

theorem deepText_head : deepText.head? ≠ some 1 := by
  unfold deepText
  rw [show 100000 = 99999 + 1 from rfl, List.replicate_succ]
  decide

theorem length_deepText : deepText.length = 100000 := by
  unfold deepText
  exact List.length_replicate

theorem deepStored_tooDeep : @TooDeep deepZlib deepLibrary deepStored := by
  have hinflates : @Zlib.Inflates deepZlib deepPacked deepText := by
    have h := @Zlib.RoundTrips.compress deepZlib (storedZlib_roundTrips (by decide)) 6 deepText
    exact (if_pos rfl : storedCompress deepText deepPacked deepText = deepPacked) ▸ h
  have hinflated : @Inflated deepZlib deepPacked deepText := by
    apply @inflated_of_inflates deepZlib _ _ hinflates
    rw [length_deepText]
    decide
  refine ⟨0, 0, deepText, @Describes.mk deepZlib deepLibrary _ _ _ _ rfl rfl rfl (by decide) ?_ ?_
    rfl ⟨deepPacked, rfl, by decide, hinflated⟩, ?_⟩
  · rw [length_deepText]
    rfl
  · rw [length_deepText]
    decide
  · have hother : deepText ≠ utf8 "[[],[]]" := by
      intro h
      have hlength := congrArg List.length h
      rw [length_deepText] at hlength
      exact absurd hlength (by decide)
    change oneLoads _ _ _ _ = _
    unfold oneLoads
    rw [if_neg hother, if_pos rfl]

/-- A `RecursionError` leaves the decoder on a payload whose metadata all match. -/
theorem deep_payload_escapes : @Zlib.RoundTrips deepZlib ∧
    @PayloadLibrary.RoundTrips deepLibrary ∧
    ¬ @SafeDecoding deepZlib deepLibrary "summary:1" deepStored := by
  have hempty : (utf8 "[[],[]]").head? ≠ some 1 := by decide +kernel
  refine ⟨storedZlib_roundTrips (by decide), oneLibrary_roundTrips hempty deepText_head, ?_⟩
  rw [@safeDecoding_iff deepZlib deepLibrary, not_not]
  exact deepStored_tooDeep

/-! ## An encoded effect -/

def sampleEffect : SummaryEffect where
  id := "effect:1"
  summaryId := "summary:1"
  kind := .write
  locationKind := .field
  certainty := .certain
  reason := "a callee writes the field"
  parameterIndex := some 0
  accessPath := ["->", "next"]
  sourceAccessId := some "access:1"
  isLocal := false
  viaCallsiteId := some "callsite:1"
  targetSymbolId := some "symbol:1"
  translationUnitId := "unit:1"
  buildConfigurationId := "build:1"
  identified := by decide
  provenance := by decide

def sampleEffectText : Bytes :=
  utf8 ("[[[\"effect:1\",\"write\",\"field\",\"certain\",\"a callee writes the field\",0," ++
    "[\"->\",\"next\"],null,\"access:1\",\"callsite:1\",\"symbol:1\",\"unit:1\",\"build:1\"," ++
    "\"default\"]],[]]")

def sampleEffectPacked : Bytes :=
  [120, 156, 45, 141, 65, 10, 66, 49, 12, 68, 175, 82, 178, 174, 160, 91, 23, 94, 164, 116, 209,
    159, 78, 49, 16, 43, 252, 182, 168, 183, 55, 63, 186, 154, 23, 120, 51, 73, 41, 17, 90, 3, 207,
    235, 133, 34, 189, 118, 153, 176, 108, 2, 173, 150, 140, 125, 22, 233, 70, 37, 112, 81, 5, 130,
    43, 35, 204, 59, 194, 223, 58, 199, 68, 167, 155, 57, 29, 239, 73, 57, 246, 165, 106, 5, 102,
    140, 225, 171, 71, 115, 88, 203, 143, 241, 121, 108, 79, 117, 92, 93, 126, 111, 183, 37, 90,
    157, 42, 90, 89, 106, 43, 57, 166, 156, 191, 160, 125, 49, 242]

abbrev sampleZlib : Zlib := storedZlib sampleEffectText sampleEffectPacked
abbrev sampleLibrary : PayloadLibrary :=
  oneLibrary ([effectRecord sampleEffect], []) sampleEffectText deepText
    "7c03990f9ed15be624c809055ebbf9565ae7d507b1299d18aadd7b2a2971cf83"

/-- The sample is encoded into the stored bytes above and decoded from them. -/
theorem payload_codec_exact_sample : ∃ encoded,
    @encodeSummaryPayload sampleZlib sampleLibrary "summary:1" [sampleEffect] [] none 0 =
      .ok (encoded, 0) ∧ encoded.payload = sampleEffectPacked ∧
      @decodeSummaryPayload sampleZlib sampleLibrary "summary:1" encoded.stored =
        .ok ([sampleEffect], []) := by
  have hencoded : @encodeSummaryPayload sampleZlib sampleLibrary "summary:1" [sampleEffect] [] none
      0 = .ok (⟨1, 0, 158, "7c03990f9ed15be624c809055ebbf9565ae7d507b1299d18aadd7b2a2971cf83",
        sampleEffectPacked⟩, 0) := by
    decide +kernel
  obtain ⟨hroundTrip, -⟩ := @payload_codec_exact sampleZlib sampleLibrary
    (storedZlib_roundTrips (by decide)) (oneLibrary_roundTrips (by decide +kernel) deepText_head)
  exact ⟨_, hencoded, rfl, hroundTrip _ _ _ _ _ _ _ hencoded⟩

end CppContextEngine.Storage
