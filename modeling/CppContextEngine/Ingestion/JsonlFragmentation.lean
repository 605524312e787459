import CppContextEngine.Ingestion.JsonlStream

/-!
# Fragments of a response

A chunk may end inside a record, a compressed block or the trailer.  The proofs
follow the text that has been decoded so far: its complete lines have been
delivered and the rest is kept for the next chunk.
-/

namespace CppContextEngine.Ingestion

open CppContextEngine.Foundation

/-! ## Lines -/

section Lines

variable {data chunk : Bytes} {line rest part : Bytes} {lines parts : List Bytes}

theorem splitOn_append {separator : UInt8} : ∀ {data : Bytes} {lines : List Bytes} {rest : Bytes},
    data.splitOn separator = lines ++ [rest] → chunk.splitOn separator = part :: parts →
      (data ++ chunk).splitOn separator = lines ++ (rest ++ part) :: parts := by
  intro data
  induction data with
  | nil =>
      intro lines rest h hchunk
      have hlines : lines = [] ∧ [] = rest := by
        cases lines <;> simp_all
      rw [hlines.1, ← hlines.2]
      exact hchunk
  | cons byte data ih =>
      intro lines rest h hchunk
      rw [List.splitOn_cons_eq_if_modifyHead] at h
      rw [List.cons_append, List.splitOn_cons_eq_if_modifyHead]
      split at h
      · rename_i hbyte
        rw [if_pos hbyte]
        cases lines with
        | nil => exact absurd (List.cons.inj h).2 (List.splitOn_ne_nil _ _)
        | cons line lines =>
            obtain ⟨rfl, hdata⟩ := List.cons.inj h
            rw [ih hdata hchunk]
            rfl
      · rename_i hbyte
        rw [if_neg hbyte]
        obtain ⟨first, others, hdata⟩ := List.exists_cons_of_ne_nil
          (List.splitOn_ne_nil separator data)
        rw [hdata, List.modifyHead_cons] at h
        cases lines with
        | nil =>
            obtain ⟨rfl, rfl⟩ := List.cons.inj h
            rw [@ih [] _ hdata hchunk]
            rfl
        | cons line lines =>
            obtain ⟨rfl, rfl⟩ := List.cons.inj h
            rw [@ih (first :: lines) _ hdata hchunk]
            rfl

/-- A text is its lines, each with its end, and what follows the last of them. -/
theorem splitOn_newline_iff : data.splitOn newline = lines ++ [rest] ↔
    data = lines.flatMap (· ++ [newline]) ++ rest ∧ (∀ line ∈ lines, newline ∉ line) ∧
      newline ∉ rest := by
  constructor
  · induction data generalizing lines rest with
    | nil =>
        intro h
        cases lines <;> simp_all
    | cons byte data ih =>
        intro h
        rw [List.splitOn_cons_eq_if_modifyHead] at h
        split at h
        · rename_i hbyte
          cases lines with
          | nil => exact absurd (List.cons.inj h).2 (List.splitOn_ne_nil _ _)
          | cons line lines =>
              obtain ⟨rfl, hdata⟩ := List.cons.inj h
              obtain ⟨rfl, hlines, hrest⟩ := ih hdata
              have hbyte : byte = newline := by simpa using hbyte
              exact ⟨by simp [hbyte], by simpa using hlines, hrest⟩
        · rename_i hbyte
          have hbyte : newline ≠ byte := fun h => hbyte (by simp [h])
          obtain ⟨first, others, hdata⟩ := List.exists_cons_of_ne_nil
            (List.splitOn_ne_nil newline data)
          rw [hdata, List.modifyHead_cons] at h
          cases lines with
          | nil =>
              obtain ⟨rfl, rfl⟩ := List.cons.inj h
              obtain ⟨rfl, -, hrest⟩ := @ih _ [] hdata
              exact ⟨rfl, by simp, by simp [hbyte, hrest]⟩
          | cons line lines =>
              obtain ⟨rfl, rfl⟩ := List.cons.inj h
              obtain ⟨rfl, hlines, hrest⟩ := @ih _ (first :: lines) hdata
              rw [List.forall_mem_cons] at hlines
              exact ⟨rfl, by simpa [hbyte] using hlines, hrest⟩
  · rintro ⟨rfl, hlines, hrest⟩
    induction lines with
    | nil => simp [List.splitOn_eq_singleton hrest]
    | cons line lines ih =>
        rw [List.forall_mem_cons] at hlines
        have hsplit : (line ++ newline :: (lines.flatMap (· ++ [newline]) ++ rest)).splitOn newline =
            line :: (lines.flatMap (· ++ [newline]) ++ rest).splitOn newline :=
          List.splitOn_append_cons_self_of_not_mem hlines.1 _
        rw [List.flatMap_cons, List.append_assoc, List.append_assoc]
        exact hsplit.trans (congrArg (line :: ·) (ih hlines.2))

end Lines

/-! ## Records -/

section Records

variable {loads : Bytes → Except LoadError Json} {limits : StreamLimits}

/-- A line that is the text of a JSON object. -/
def Holds (loads : Bytes → Except LoadError Json) (limits : StreamLimits) (line : Bytes)
    (entries : Entries) : Prop :=
  line ≠ [] ∧ line.length ≤ limits.maxRecordBytes ∧ loads line = .ok (.object entries)

theorem parseRecord_ok_iff {line : Bytes} {entries : Entries} :
    parseRecord loads limits line = .ok entries ↔ Holds loads limits line entries := by
  unfold parseRecord Holds
  constructor
  · intro h
    obtain ⟨_, hempty, h⟩ := bind_eq_ok.mp h
    obtain ⟨_, hlimit, h⟩ := bind_eq_ok.mp h
    rw [throwIf_eq_ok] at hempty hlimit
    split at h
    · rename_i hloads
      cases h
      exact ⟨hempty, Nat.not_lt.mp hlimit, hloads⟩
    all_goals cases h
  · rintro ⟨hempty, hlimit, hloads⟩
    apply bind_eq_ok.mpr ⟨(), throwIf_eq_ok.mpr hempty, ?_⟩
    apply bind_eq_ok.mpr ⟨(), throwIf_eq_ok.mpr (Nat.not_lt.mpr hlimit), ?_⟩
    rw [hloads]
    rfl

theorem holds_functional {lines : List Bytes} {records records' : List Entries}
    (h : List.Forall₂ (Holds loads limits) lines records)
    (h' : List.Forall₂ (Holds loads limits) lines records') : records = records' := by
  induction h generalizing records' with
  | nil => cases h'; rfl
  | cons hline _ ih =>
      cases h' with
      | cons hline' hrest =>
          cases hline.2.2.symm.trans hline'.2.2
          rw [ih hrest]

theorem forall₂_append_left {α β : Type} {R : α → β → Prop} {xs ys : List α} {zs : List β}
    (h : List.Forall₂ R (xs ++ ys) zs) :
    ∃ front back, List.Forall₂ R xs front ∧ List.Forall₂ R ys back ∧ zs = front ++ back :=
  ⟨zs.take xs.length, zs.drop xs.length, (List.forall₂_take_append _ _ _ h.flip).flip,
    (List.forall₂_drop_append _ _ _ h.flip).flip, (List.take_append_drop _ _).symm⟩

theorem append_singleton_eq_append_cons {α : Type} {xs ys zs : List α} {x y : α}
    (h : xs ++ [x] = ys ++ y :: zs) : ∃ more, xs = ys ++ more ∧ more ++ [x] = y :: zs := by
  rcases List.append_eq_append_iff.mp h with ⟨more, hmore, hx⟩ | ⟨more, hmore, hrest⟩
  · cases more with
    | nil => exact ⟨[], by simpa using hmore.symm, hx⟩
    | cons z more => simp at hx
  · exact ⟨more, hmore, hrest.symm⟩

/-- `data` is complete lines that hold `records`, and then `rest`. -/
def Framed (loads : Bytes → Except LoadError Json) (limits : StreamLimits) (data : Bytes)
    (records : List Entries) (rest : Bytes) : Prop :=
  ∃ lines, data.splitOn newline = lines ++ [rest] ∧
    List.Forall₂ (Holds loads limits) lines records ∧ rest.length ≤ limits.maxRecordBytes

theorem Framed.nil : Framed loads limits [] [] [] := ⟨[], rfl, .nil, Nat.zero_le _⟩

theorem Framed.unique {data rest rest' : Bytes} {records records' : List Entries}
    (h : Framed loads limits data records rest) (h' : Framed loads limits data records' rest') :
    records = records' ∧ rest = rest' := by
  obtain ⟨lines, hlines, hholds, -⟩ := h
  obtain ⟨lines', hlines', hholds', -⟩ := h'
  obtain ⟨rfl, hrest⟩ := List.append_inj' (hlines.symm.trans hlines') rfl
  exact ⟨holds_functional hholds hholds', List.singleton_inj.mp hrest⟩

/-- What the lines of a longer text hold begins with what those of its beginning hold. -/
theorem framed_append_iff {data chunk rest part : Bytes} {parts : List Bytes}
    {records records' : List Entries} {rest' : Bytes} (h : Framed loads limits data records rest)
    (hchunk : chunk.splitOn newline = part :: parts) :
    Framed loads limits (data ++ chunk) records' rest' ↔ ∃ lines more,
      (rest ++ part) :: parts = lines ++ [rest'] ∧ List.Forall₂ (Holds loads limits) lines more ∧
        rest'.length ≤ limits.maxRecordBytes ∧ records' = records ++ more := by
  obtain ⟨lines, hlines, hholds, -⟩ := h
  unfold Framed
  rw [splitOn_append hlines hchunk]
  constructor
  · rintro ⟨all, hall, hholds', hrest'⟩
    obtain ⟨more, rfl, hmore⟩ := append_singleton_eq_append_cons hall.symm
    obtain ⟨records₁, records₂, h₁, h₂, rfl⟩ := forall₂_append_left hholds'
    rw [holds_functional h₁ hholds]
    exact ⟨more, records₂, hmore.symm, h₂, hrest', rfl⟩
  · rintro ⟨more, records₂, hmore, hholds₂, hrest', rfl⟩
    refine ⟨lines ++ more, ?_, List.rel_append hholds hholds₂, hrest'⟩
    rw [hmore, List.append_assoc]

theorem Framed.of_append {data chunk rest' : Bytes} {records' : List Entries}
    (h : Framed loads limits (data ++ chunk) records' rest') :
    ∃ records rest, Framed loads limits data records rest := by
  obtain ⟨all, hall, hholds, hrest'⟩ := h
  obtain ⟨lines, rest, hlines⟩ := List.eq_nil_or_concat (data.splitOn newline) |>.resolve_left
    (List.splitOn_ne_nil _ _)
  obtain ⟨part, parts, hchunk⟩ := List.exists_cons_of_ne_nil (List.splitOn_ne_nil newline chunk)
  rw [List.concat_eq_append] at hlines
  rw [splitOn_append hlines hchunk] at hall
  obtain ⟨more, rfl, hmore⟩ := append_singleton_eq_append_cons hall.symm
  obtain ⟨records, records₂, h₁, h₂, -⟩ := forall₂_append_left hholds
  refine ⟨records, rest, lines, hlines, h₁, ?_⟩
  have hlong : (rest ++ part).length ≤ limits.maxRecordBytes := by
    cases more with
    | nil =>
        rw [← (List.cons.inj hmore).1]
        exact hrest'
    | cons line more =>
        obtain ⟨rfl, -⟩ := List.cons.inj hmore
        cases h₂ with
        | cons hline _ => exact hline.2.1
  rw [List.length_append] at hlong
  omega

theorem feedParts_ok_iff [Zlib] {parts : List Bytes} : ∀ {part : Bytes}
    {decoder decoder' : JsonlStreamDecoder},
    feedParts loads limits decoder (part :: parts) = .ok decoder' ↔ ∃ lines more,
      (decoder.record ++ part) :: parts = lines ++ [decoder'.record] ∧
        List.Forall₂ (Holds loads limits) lines more ∧
        decoder'.record.length ≤ limits.maxRecordBytes ∧
        decoder' = { decoder with
          record := decoder'.record, records := decoder.records ++ more } := by
  induction parts with
  | nil =>
      intro part decoder decoder'
      constructor
      · intro h
        obtain ⟨_, hlimit, h⟩ := bind_eq_ok.mp h
        rw [throwIf_eq_ok] at hlimit
        cases h
        exact ⟨[], [], rfl, .nil, Nat.not_lt.mp hlimit, by simp⟩
      · rintro ⟨lines, more, hlines, hholds, hlimit, hdecoder⟩
        have hsplit : [] ++ [decoder.record ++ part] = lines ++ [decoder'.record] := hlines
        obtain ⟨rfl, hrecord⟩ := List.append_inj' hsplit rfl
        cases hholds
        rw [List.singleton_inj] at hrecord
        apply bind_eq_ok.mpr ⟨(), throwIf_eq_ok.mpr ?_, ?_⟩
        · rw [hrecord]
          omega
        · rw [hrecord, hdecoder]
          simp [pure, Except.pure]
  | cons next parts ih =>
      intro part decoder decoder'
      rw [feedParts, bind_eq_ok]
      constructor
      · rintro ⟨entries, hentries, h⟩
        obtain ⟨lines, more, hlines, hholds, hlimit, hdecoder⟩ := ih.mp h
        refine ⟨(decoder.record ++ part) :: lines, entries :: more, ?_,
          .cons (parseRecord_ok_iff.mp hentries) hholds, hlimit, ?_⟩
        · rw [List.cons_append, ← hlines]
          rfl
        · rw [hdecoder]
          simp
      · rintro ⟨lines, more, hlines, hholds, hlimit, hdecoder⟩
        cases hholds with
        | nil => simp at hlines
        | cons hline hholds =>
            rw [List.cons_append] at hlines
            obtain ⟨rfl, hnext⟩ := List.cons.inj hlines
            refine ⟨_, parseRecord_ok_iff.mpr hline, ih.mpr ⟨_, _, hnext, hholds, hlimit, ?_⟩⟩
            rw [hdecoder]
            simp

end Records

/-! ## Decoded text -/

section Decoded

variable {loads : Bytes → Except LoadError Json} {limits : StreamLimits}
variable {budget : Option ResourceBudget}

/-- The budget after `amount` more bytes. -/
def Charged (budget : Option ResourceBudget) (amount : Nat) :
    Option ResourceBudget → Prop
  | none => budget = none
  | some after => ∃ before, budget = some before ∧ after.limit = before.limit ∧
      after.message = before.message ∧ after.used = before.used + amount

theorem Charged.refl (budget : Option ResourceBudget) : Charged budget 0 budget := by
  cases budget with
  | none => rfl
  | some before => exact ⟨before, rfl, rfl, rfl, rfl⟩

theorem Charged.trans {amount more : Nat} {between after : Option ResourceBudget}
    (h : Charged budget amount between) (hmore : Charged between more after) :
    Charged budget (amount + more) after := by
  cases after with
  | none =>
      cases hmore
      exact h
  | some after =>
      obtain ⟨_, rfl, hlimit, hmessage, hused⟩ := hmore
      obtain ⟨before, rfl, hlimit', hmessage', hused'⟩ := h
      exact ⟨before, rfl, hlimit.trans hlimit', hmessage.trans hmessage', by omega⟩

theorem Charged.cancel {amount more : Nat} {between after : Option ResourceBudget}
    (h : Charged budget amount between) (hafter : Charged budget (amount + more) after) :
    Charged between more after := by
  cases between with
  | none =>
      cases h
      cases after with
      | none => rfl
      | some after => simp [Charged] at hafter
  | some between =>
      obtain ⟨before, rfl, hlimit, hmessage, hused⟩ := h
      cases after with
      | none => simp [Charged] at hafter
      | some after =>
          obtain ⟨_, hbefore, hlimit', hmessage', hused'⟩ := hafter
          cases hbefore
          exact ⟨between, rfl, hlimit'.trans hlimit.symm, hmessage'.trans hmessage.symm, by omega⟩

theorem Charged.unique {amount : Nat} {after after' : Option ResourceBudget}
    (h : Charged budget amount after) (h' : Charged budget amount after') : after = after' := by
  cases after with
  | none =>
      cases h
      cases after' with
      | none => rfl
      | some after' => simp [Charged] at h'
  | some after =>
      obtain ⟨before, rfl, hlimit, hmessage, hused⟩ := h
      cases after' with
      | none => simp [Charged] at h'
      | some after' =>
          obtain ⟨_, hbefore, hlimit', hmessage', hused'⟩ := h'
          cases hbefore
          cases after
          cases after'
          simp_all

theorem Charged.within {amount : Nat} {after : Option ResourceBudget}
    (h : Charged budget amount after) :
    ∀ before ∈ budget, before.used + amount ≤ before.limit := by
  intro before hbefore
  cases after with
  | none =>
      cases h
      cases hbefore
  | some after =>
      obtain ⟨_, hsome, hlimit, -, hused⟩ := h
      cases hbefore.symm.trans hsome
      rw [← hused, ← hlimit]
      exact after.bounded

theorem exists_charged {amount : Nat}
    (h : ∀ before ∈ budget, before.used + amount ≤ before.limit) :
    ∃ after, Charged budget amount after := by
  cases budget with
  | none => exact ⟨none, rfl⟩
  | some before =>
      exact ⟨some { before with used := before.used + amount, bounded := h before rfl },
        before, rfl, rfl, rfl, rfl⟩

theorem acquireDecoded_ok_iff {after : Option ResourceBudget} {chunk : Bytes} :
    acquireDecoded budget chunk = .ok after ↔ Charged budget chunk.length after := by
  constructor
  · intro h
    cases budget with
    | none =>
        cases h
        rfl
    | some before =>
        simp only [acquireDecoded] at h
        split at h
        · rename_i hchunk
          cases h
          rw [hchunk]
          exact Charged.refl _
        · unfold ResourceBudget.acquire at h
          split at h
          · cases h
            exact ⟨before, rfl, rfl, rfl, rfl⟩
          · cases h
  · intro h
    cases hbudget : budget with
    | none =>
        subst hbudget
        cases after with
        | none => rfl
        | some after => simp [Charged] at h
    | some before =>
        have hwithin := h.within before hbudget
        subst hbudget
        unfold acquireDecoded
        by_cases hchunk : chunk = []
        · subst hchunk
          simp only [↓reduceIte]
          rw [h.unique (Charged.refl _)]
        · simp only [hchunk, ↓reduceIte, ResourceBudget.acquire, hwithin, ↓reduceDIte]
          exact congrArg Except.ok (Charged.unique ⟨before, rfl, rfl, rfl, rfl⟩ h)

/-- A text that a decoder that started with `budget` can decode. -/
def Decodable (loads : Bytes → Except LoadError Json) (limits : StreamLimits)
    (budget : Option ResourceBudget) (data : Bytes) : Prop :=
  data.length ≤ limits.maxDecodedBytes ∧
    (∀ before ∈ budget, before.used + data.length ≤ before.limit) ∧
    ∃ records rest, Framed loads limits data records rest

theorem Decodable.of_append {data chunk : Bytes}
    (h : Decodable loads limits budget (data ++ chunk)) : Decodable loads limits budget data := by
  obtain ⟨hlimit, hbudget, records, rest, hframed⟩ := h
  rw [List.length_append] at hlimit hbudget
  refine ⟨by omega, fun before hbefore => ?_, hframed.of_append⟩
  have := hbudget before hbefore
  omega

variable [Zlib]

/-- What a decoder that started with `budget` is after it has decoded `data`. -/
structure Decoded (loads : Bytes → Except LoadError Json) (limits : StreamLimits)
    (budget : Option ResourceBudget) (data : Bytes) (decoder : JsonlStreamDecoder) : Prop where
  bytes : decoder.decodedBytes = data.length
  limit : data.length ≤ limits.maxDecodedBytes
  charged : Charged budget data.length decoder.decodedBudget
  framed : Framed loads limits data decoder.records decoder.record

theorem Decoded.decodable {data : Bytes} {decoder : JsonlStreamDecoder}
    (h : Decoded loads limits budget data decoder) : Decodable loads limits budget data :=
  ⟨h.limit, h.charged.within, _, _, h.framed⟩

theorem feedDecoded_ok_iff {data chunk : Bytes} {decoder decoder' : JsonlStreamDecoder}
    (h : Decoded loads limits budget data decoder) :
    feedDecoded loads limits decoder chunk = .ok decoder' ↔
      Decoded loads limits budget (data ++ chunk) decoder' ∧
        decoder'.wireBytes = decoder.wireBytes ∧
        decoder'.decompressor = decoder.decompressor := by
  obtain ⟨part, parts, hchunk⟩ := List.exists_cons_of_ne_nil (List.splitOn_ne_nil newline chunk)
  unfold feedDecoded
  rw [hchunk]
  constructor
  · intro hfeed
    obtain ⟨after, hafter, hfeed⟩ := bind_eq_ok.mp hfeed
    obtain ⟨_, hlimit, hfeed⟩ := bind_eq_ok.mp hfeed
    obtain ⟨lines, more, hlines, hholds, hrest, hdecoder⟩ := feedParts_ok_iff.mp hfeed
    rw [throwIf_eq_ok, h.bytes] at hlimit
    have hframed := (framed_append_iff h.framed hchunk).mpr ⟨lines, more, hlines, hholds, hrest, rfl⟩
    rw [hdecoder]
    refine ⟨⟨?_, ?_, ?_, hframed⟩, rfl, rfl⟩
    · simp [h.bytes]
    · rw [List.length_append]
      omega
    · rw [List.length_append]
      exact h.charged.trans (acquireDecoded_ok_iff.mp hafter)
  · rintro ⟨hdecoded, hwire, hdecompressor⟩
    obtain ⟨lines, more, hlines, hholds, hrest, hrecords⟩ :=
      (framed_append_iff h.framed hchunk).mp hdecoded.framed
    have hlength := hdecoded.limit
    have hcharged := hdecoded.charged
    rw [List.length_append] at hlength hcharged
    have hafter : acquireDecoded decoder.decodedBudget chunk = .ok decoder'.decodedBudget :=
      acquireDecoded_ok_iff.mpr (h.charged.cancel hcharged)
    apply bind_eq_ok.mpr ⟨_, hafter, ?_⟩
    apply bind_eq_ok.mpr ⟨(), throwIf_eq_ok.mpr (by rw [h.bytes]; omega), ?_⟩
    refine feedParts_ok_iff.mpr ⟨lines, more, hlines, hholds, hrest, ?_⟩
    have hbytes := hdecoded.bytes
    rw [List.length_append, ← h.bytes] at hbytes
    cases decoder'
    simp_all

theorem exists_decoded {data chunk : Bytes} {decoder : JsonlStreamDecoder}
    (h : Decoded loads limits budget data decoder)
    (hdecodable : Decodable loads limits budget (data ++ chunk)) :
    ∃ decoder', feedDecoded loads limits decoder chunk = .ok decoder' := by
  obtain ⟨hlimit, hbudget, records, record, hframed⟩ := hdecodable
  obtain ⟨decodedBudget, hcharged⟩ := exists_charged hbudget
  exact ⟨{ decoder with decodedBytes := (data ++ chunk).length, decodedBudget, records, record },
    (feedDecoded_ok_iff h).mpr ⟨⟨rfl, hlimit, hcharged, hframed⟩, rfl, rfl⟩⟩

end Decoded

/-! ## Compressed chunks -/

section Attached

variable [Zlib] {start decompressor : Zlib.Decompressor} {wire data : Bytes} {limit : Nat}

/-- A decompressor that has turned all of `wire` into `data`, as one call would. -/
def Attached (start : Zlib.Decompressor) (wire data : Bytes) (decompressor : Zlib.Decompressor) :
    Prop :=
  Zlib.Fed start wire data decompressor ∧ ∃ whole, Zlib.decompress start wire 0 = some (data, whole) ∧
    Zlib.unusedData decompressor = Zlib.unusedData whole ∧
    Zlib.eof decompressor = Zlib.eof whole

theorem attached_start (hzlib : Zlib.Incremental start) : Attached start [] [] start := by
  obtain ⟨whole, hwhole, hunused, heof⟩ := hzlib.fresh
  exact ⟨.start, whole, hwhole, hunused.symm, heof.symm⟩

/-- A call returns all that the chunk adds, raises, or has no room for it. -/
theorem decompress_cases (chunk : Bytes) (hzlib : Zlib.Incremental start) (hlimit : 0 < limit)
    (h : Attached start wire data decompressor) :
    (∃ piece decompressor', Zlib.decompress decompressor chunk limit = some (piece, decompressor') ∧
      Zlib.unconsumedTail decompressor' = [] ∧
      Attached start (wire ++ chunk) (data ++ piece) decompressor') ∨
    (Zlib.decompress decompressor chunk limit = none ∧
      Zlib.decompress start (wire ++ chunk) 0 = none) ∨
    ∃ piece decompressor', Zlib.decompress decompressor chunk limit = some (piece, decompressor') ∧
      piece.length = limit ∧ ∀ all whole, Zlib.decompress start (wire ++ chunk) 0 = some (all, whole) →
        data.length + limit ≤ all.length := by
  obtain ⟨hfed, part, hpart, -, -⟩ := h
  cases hall : Zlib.decompress start (wire ++ chunk) 0 with
  | none =>
      rcases hzlib.malformed hfed hall hlimit with hnone | ⟨piece, decompressor', hpiece, hlength⟩
      · exact .inr (.inl ⟨hnone, rfl⟩)
      · exact .inr (.inr ⟨piece, decompressor', hpiece, hlength, by simp⟩)
  | some result =>
      obtain ⟨all, whole⟩ := result
      obtain ⟨written, piece, _, hwritten, rfl⟩ := hzlib.grows hall
      cases hpart.symm.trans hwritten
      by_cases hspare : piece.length < limit
      · obtain ⟨decompressor', hpiece, htail, hunused, heof⟩ := hzlib.spare hfed hall hspare
        exact .inl ⟨piece, decompressor', hpiece, htail, hfed.call hpiece htail, whole, hall,
          hunused, heof⟩
      · obtain ⟨decompressor', hpiece⟩ := hzlib.full hfed hall hlimit (Nat.not_lt.mp hspare)
        refine .inr (.inr ⟨_, decompressor', hpiece, ?_, ?_⟩)
        · rw [List.length_take]
          omega
        · rintro _ _ heq
          cases heq
          rw [List.length_append]
          omega

end Attached

/-! ## The stream -/

section Stream

variable [Zlib] {loads : Bytes → Except LoadError Json} {limits : StreamLimits}
variable {gunzip : Option Zlib.Decompressor} {budget : Option ResourceBudget} {rounds : Nat}

/-- The text that `wire` carries. -/
def Carries (gunzip : Option Zlib.Decompressor) (wire data : Bytes) : Prop :=
  match gunzip with
  | none => data = wire
  | some start => ∃ whole, Zlib.decompress start wire 0 = some (data, whole)

/-- A compressed stream ends where `wire` does. -/
def Ends (gunzip : Option Zlib.Decompressor) (wire : Bytes) : Prop :=
  ∀ start ∈ gunzip, ∃ data whole, Zlib.decompress start wire 0 = some (data, whole) ∧
    Zlib.eof whole = true ∧ Zlib.unusedData whole = []

/-- What a new decoder is after `wire` has been fed to it. -/
structure Received (loads : Bytes → Except LoadError Json) (limits : StreamLimits)
    (gunzip : Option Zlib.Decompressor) (budget : Option ResourceBudget) (wire data : Bytes)
    (decoder : JsonlStreamDecoder) : Prop where
  bytes : decoder.wireBytes = wire.length
  limit : wire.length ≤ limits.maxWireBytes
  decoded : Decoded loads limits budget data decoder
  transport : match gunzip, decoder.decompressor with
    | none, none => data = wire
    | some start, some decompressor => Attached start wire data decompressor
    | _, _ => False

/-- A stream that can be decoded as far as it has arrived. -/
def Receivable (loads : Bytes → Except LoadError Json) (limits : StreamLimits)
    (gunzip : Option Zlib.Decompressor) (budget : Option ResourceBudget) (wire : Bytes) : Prop :=
  wire.length ≤ limits.maxWireBytes ∧
    ∃ data, Carries gunzip wire data ∧ Decodable loads limits budget data

/-- The assumption on `zlib`, which a plain transport does not need. -/
def Decompresses (gunzip : Option Zlib.Decompressor) : Prop :=
  ∀ start ∈ gunzip, Zlib.Incremental start

theorem Carries.unique {wire data data' : Bytes} (h : Carries gunzip wire data)
    (h' : Carries gunzip wire data') : data = data' := by
  cases gunzip with
  | none => exact h.trans h'.symm
  | some start =>
      obtain ⟨_, hwhole⟩ := h
      obtain ⟨_, hwhole'⟩ := h'
      cases hwhole.symm.trans hwhole'
      rfl

theorem Received.carries {wire data : Bytes} {decoder : JsonlStreamDecoder}
    (h : Received loads limits gunzip budget wire data decoder) : Carries gunzip wire data := by
  have htransport := h.transport
  split at htransport
  · exact htransport
  · obtain ⟨-, whole, hwhole, -⟩ := htransport
    exact ⟨whole, hwhole⟩
  · cases htransport

theorem Received.receivable {wire data : Bytes} {decoder : JsonlStreamDecoder}
    (h : Received loads limits gunzip budget wire data decoder) :
    Receivable loads limits gunzip budget wire :=
  ⟨h.limit, data, h.carries, h.decoded.decodable⟩

theorem Receivable.of_append (hzlib : Decompresses gunzip) {wire chunk : Bytes}
    (h : Receivable loads limits gunzip budget (wire ++ chunk)) :
    Receivable loads limits gunzip budget wire := by
  obtain ⟨hlimit, all, hcarries, hdecodable⟩ := h
  rw [List.length_append] at hlimit
  refine ⟨by omega, ?_⟩
  cases gunzip with
  | none =>
      cases hcarries
      exact ⟨wire, rfl, hdecodable.of_append⟩
  | some start =>
      obtain ⟨_, hwhole⟩ := hcarries
      obtain ⟨data, rest, part, hpart, rfl⟩ := (hzlib start rfl).grows hwhole
      exact ⟨data, ⟨part, hpart⟩, hdecodable.of_append⟩

theorem received_start (loads : Bytes → Except LoadError Json) (limits : StreamLimits)
    (budget : Option ResourceBudget) (hzlib : Decompresses gunzip) :
    Received loads limits gunzip budget [] []
    { decompressor := gunzip, decodedBudget := budget } := by
  refine ⟨rfl, Nat.zero_le _, ⟨rfl, Nat.zero_le _, Charged.refl budget, Framed.nil⟩, ?_⟩
  cases gunzip with
  | none => rfl
  | some start => exact attached_start (hzlib start rfl)

/-- One round of the loop reads a whole chunk, or nothing does. -/
theorem feedPending_received (rounds : Nat) (chunk : Bytes) {start decompressor : Zlib.Decompressor}
    (hzlib : Zlib.Incremental start) {wire data : Bytes} {decoder : JsonlStreamDecoder}
    (hdecoded : Decoded loads limits budget data decoder)
    (hattached : Attached start wire data decompressor) :
    (∀ decoder', feedPending loads limits (rounds + 1) decoder decompressor chunk = .ok decoder' →
      ∃ all decompressor', decoder'.decompressor = some decompressor' ∧
        Attached start (wire ++ chunk) all decompressor' ∧
        Decoded loads limits budget all decoder' ∧ decoder'.wireBytes = decoder.wireBytes) ∧
    (∀ all whole, Zlib.decompress start (wire ++ chunk) 0 = some (all, whole) →
      Decodable loads limits budget all →
        ∃ decoder', feedPending loads limits (rounds + 1) decoder decompressor chunk =
          .ok decoder') := by
  cases chunk with
  | nil =>
      refine ⟨fun decoder' h => ?_, fun all whole _ _ => ⟨_, rfl⟩⟩
      cases h
      exact ⟨data, decompressor, rfl, by simpa using hattached, ⟨hdecoded.bytes, hdecoded.limit,
        hdecoded.charged, hdecoded.framed⟩, rfl⟩
  | cons byte chunk =>
      have hlimit := hdecoded.limit
      have hbytes := hdecoded.bytes
      rcases decompress_cases (byte :: chunk) hzlib
          (Nat.succ_pos (limits.maxDecodedBytes - decoder.decodedBytes)) hattached with
        ⟨piece, decompressor', hpiece, htail, hnext⟩ | ⟨hnone, hmalformed⟩ |
          ⟨piece, decompressor', hpiece, hlength, hlong⟩
      · have hround : feedPending loads limits (rounds + 1) decoder decompressor (byte :: chunk) =
            feedDecoded loads limits decoder piece >>= fun decoder =>
              .ok { decoder with decompressor := some decompressor' } := by
          simp only [feedPending, hpiece, htail]
          cases rounds <;> rfl
        rw [hround]
        constructor
        · intro decoder' h
          obtain ⟨decoder₁, hfeed, h⟩ := bind_eq_ok.mp h
          obtain ⟨hdecoded₁, hwire, -⟩ := (feedDecoded_ok_iff hdecoded).mp hfeed
          cases h
          exact ⟨_, decompressor', rfl, hnext, ⟨hdecoded₁.bytes, hdecoded₁.limit,
            hdecoded₁.charged, hdecoded₁.framed⟩, hwire⟩
        · intro all whole hall hdecodable
          obtain ⟨-, _, hwhole, -⟩ := hnext
          cases hwhole.symm.trans hall
          obtain ⟨decoder₁, hfeed⟩ := exists_decoded hdecoded hdecodable
          exact ⟨_, bind_eq_ok.mpr ⟨decoder₁, hfeed, rfl⟩⟩
      · constructor
        · intro decoder' h
          simp only [feedPending, hnone] at h
          cases h
        · intro all whole hall
          rw [hmalformed] at hall
          cases hall
      · constructor
        · intro decoder' h
          simp only [feedPending, hpiece] at h
          obtain ⟨decoder₁, hfeed, -⟩ := bind_eq_ok.mp h
          have htoo := ((feedDecoded_ok_iff hdecoded).mp hfeed).1.limit
          rw [List.length_append] at htoo
          omega
        · intro all whole hall hdecodable
          have htoo := hlong all whole hall
          have hmax := hdecodable.1
          omega

/-- A chunk can be fed if the stream with it can be decoded, and only then. -/
theorem feed_received (rounds : Nat) (chunk : Bytes) (hzlib : Decompresses gunzip)
    {wire data : Bytes}
    {decoder : JsonlStreamDecoder} (h : Received loads limits gunzip budget wire data decoder) :
    (∀ decoder', decoder.feed loads limits (rounds + 1) chunk = .ok decoder' →
      ∃ all, Received loads limits gunzip budget (wire ++ chunk) all decoder') ∧
    (Receivable loads limits gunzip budget (wire ++ chunk) →
      ∃ decoder', decoder.feed loads limits (rounds + 1) chunk = .ok decoder') := by
  obtain ⟨hbytes, -, hdecoded, htransport⟩ := h
  obtain ⟨decompressor, decodedBudget, wireBytes, decodedBytes, record, records⟩ := decoder
  have hdecoded' : Decoded loads limits budget data ⟨decompressor, decodedBudget,
      wireBytes + chunk.length, decodedBytes, record, records⟩ :=
    ⟨hdecoded.bytes, hdecoded.limit, hdecoded.charged, hdecoded.framed⟩
  unfold JsonlStreamDecoder.feed
  simp only at hbytes htransport ⊢
  split at htransport
  · subst htransport
    constructor
    · intro decoder' h
      obtain ⟨_, hwire, h⟩ := bind_eq_ok.mp h
      rw [throwIf_eq_ok, hbytes] at hwire
      obtain ⟨hnext, hwireBytes, hsame⟩ := (feedDecoded_ok_iff hdecoded').mp h
      refine ⟨data ++ chunk, ?_, ?_, hnext, ?_⟩
      · rw [hwireBytes, List.length_append, hbytes]
      · rw [List.length_append]
        omega
      · rw [hsame]
    · rintro ⟨hwire, all, hcarries, hdecodable⟩
      cases hcarries
      rw [List.length_append] at hwire
      obtain ⟨decoder', hfeed⟩ := exists_decoded hdecoded' hdecodable
      exact ⟨decoder', bind_eq_ok.mpr ⟨(), throwIf_eq_ok.mpr (by omega), hfeed⟩⟩
  · rename_i start decompressor
    obtain ⟨hreceived, hreceivable⟩ := feedPending_received rounds chunk
      (hzlib start rfl) hdecoded' htransport
    constructor
    · intro decoder' h
      obtain ⟨_, hwire, h⟩ := bind_eq_ok.mp h
      rw [throwIf_eq_ok, hbytes] at hwire
      obtain ⟨all, decompressor', hsome, hattached, hnext, hwireBytes⟩ := hreceived decoder' h
      refine ⟨all, ?_, ?_, hnext, ?_⟩
      · rw [hwireBytes, List.length_append, hbytes]
      · rw [List.length_append]
        omega
      · rw [hsome]
        exact hattached
    · rintro ⟨hwire, all, ⟨whole, hall⟩, hdecodable⟩
      rw [List.length_append] at hwire
      obtain ⟨decoder', hfeed⟩ := hreceivable all whole hall hdecodable
      exact ⟨decoder', bind_eq_ok.mpr ⟨(), throwIf_eq_ok.mpr (by omega), hfeed⟩⟩
  · cases htransport

/-- Chunks can all be fed if the whole stream can be decoded, and only then. -/
theorem feedAll_received (rounds : Nat) (hzlib : Decompresses gunzip) (chunks : List Bytes) : ∀ {wire data : Bytes}
    {decoder : JsonlStreamDecoder}, Received loads limits gunzip budget wire data decoder →
    (∀ decoder', chunks.foldlM (JsonlStreamDecoder.feed loads limits (rounds + 1)) decoder =
        .ok decoder' →
      ∃ all, Received loads limits gunzip budget (wire ++ chunks.flatten) all decoder') ∧
    (Receivable loads limits gunzip budget (wire ++ chunks.flatten) →
      ∃ decoder', chunks.foldlM (JsonlStreamDecoder.feed loads limits (rounds + 1)) decoder =
        .ok decoder') := by
  induction chunks with
  | nil =>
      intro wire data decoder h
      refine ⟨fun decoder' hfed => ?_, fun _ => ⟨decoder, rfl⟩⟩
      cases hfed
      exact ⟨data, by simpa using h⟩
  | cons chunk chunks ih =>
      intro wire data decoder h
      obtain ⟨hreceived, hreceivable⟩ := feed_received rounds chunk hzlib h
      rw [List.foldlM_cons, List.flatten_cons, ← List.append_assoc]
      constructor
      · intro decoder' hfed
        obtain ⟨decoder₁, hfeed, hfed⟩ := bind_eq_ok.mp hfed
        obtain ⟨all, hnext⟩ := hreceived decoder₁ hfeed
        exact (ih hnext).1 decoder' hfed
      · intro hwhole
        obtain ⟨decoder₁, hfeed⟩ := hreceivable (hwhole.of_append hzlib)
        obtain ⟨all, hnext⟩ := hreceived decoder₁ hfeed
        obtain ⟨decoder', hfed⟩ := (ih hnext).2 hwhole
        exact ⟨decoder', bind_eq_ok.mpr ⟨decoder₁, hfeed, hfed⟩⟩

/-- Finishing accepts just a stream that is over and ends with a complete line. -/
theorem finish_received (hzlib : Decompresses gunzip) {wire data : Bytes}
    {decoder : JsonlStreamDecoder} (h : Received loads limits gunzip budget wire data decoder) :
    (∀ decoder', decoder.finish loads limits = .ok decoder' →
      decoder'.records = decoder.records ∧ decoder.record = [] ∧ Ends gunzip wire) ∧
    (decoder.record = [] → Ends gunzip wire →
      ∃ decoder', decoder.finish loads limits = .ok decoder') := by
  have htransport := h.transport
  have hempty : feedDecoded loads limits decoder [] = .ok decoder :=
    (feedDecoded_ok_iff h.decoded).mpr ⟨by simpa using h.decoded, rfl, rfl⟩
  unfold JsonlStreamDecoder.finish flushPending
  split at htransport
  · rename_i hdecompressor
    rw [hdecompressor]
    constructor
    · intro decoder' h
      obtain ⟨_, hsame, h⟩ := bind_eq_ok.mp h
      obtain ⟨_, hrecord, h⟩ := bind_eq_ok.mp h
      rw [throwIf_eq_ok, not_not] at hrecord
      cases hsame
      cases h
      exact ⟨rfl, hrecord, by simp [Ends]⟩
    · intro hrecord _
      exact ⟨decoder, bind_eq_ok.mpr ⟨decoder, rfl, bind_eq_ok.mpr
        ⟨(), throwIf_eq_ok.mpr (not_not.mpr hrecord), rfl⟩⟩⟩
  · rename_i start decompressor hdecompressor
    rw [hdecompressor]
    obtain ⟨hfed, whole, hwhole, hunused, heof⟩ := htransport
    obtain ⟨flushed, hflush, hunused', heof'⟩ := (hzlib start rfl).flush hfed
      (Nat.succ_pos (limits.maxDecodedBytes - decoder.decodedBytes))
    simp only [hflush, hempty, hunused', heof', hunused, heof]
    constructor
    · intro decoder' h
      obtain ⟨decoder₁, h₁, h⟩ := bind_eq_ok.mp h
      obtain ⟨_, hsame, h₁⟩ := bind_eq_ok.mp h₁
      obtain ⟨_, hend, h₁⟩ := bind_eq_ok.mp h₁
      obtain ⟨_, hrecord, h⟩ := bind_eq_ok.mp h
      rw [throwIf_eq_ok] at hend hrecord
      cases hsame
      cases h₁
      cases h
      rw [not_or, not_not, Bool.not_eq_false] at hend
      exact ⟨rfl, not_not.mp hrecord, fun _ hstart => by
        cases hstart
        exact ⟨data, whole, hwhole, hend.1, hend.2⟩⟩
    · intro hrecord hends
      obtain ⟨_, whole', hwhole', hend⟩ := hends start rfl
      cases hwhole.symm.trans hwhole'
      refine ⟨_, bind_eq_ok.mpr ⟨_, bind_eq_ok.mpr ⟨decoder, rfl, bind_eq_ok.mpr
        ⟨(), throwIf_eq_ok.mpr ?_, rfl⟩⟩, bind_eq_ok.mpr ⟨(), throwIf_eq_ok.mpr ?_, rfl⟩⟩⟩
      · simp [hend.1, hend.2]
      · simpa using hrecord
  · cases htransport

/-- The stream carries the lines of `records`, each with its end, within all limits. -/
def StreamOf (loads : Bytes → Except LoadError Json) (limits : StreamLimits)
    (gunzip : Option Zlib.Decompressor) (budget : Option ResourceBudget) (wire : Bytes)
    (records : List Entries) : Prop :=
  wire.length ≤ limits.maxWireBytes ∧ ∃ data, Carries gunzip wire data ∧ Ends gunzip wire ∧
    data.length ≤ limits.maxDecodedBytes ∧
    (∀ before ∈ budget, before.used + data.length ≤ before.limit) ∧
    ∃ lines, data = lines.flatMap (· ++ [newline]) ∧ (∀ line ∈ lines, newline ∉ line) ∧
      List.Forall₂ (Holds loads limits) lines records

theorem streamOf_iff {wire : Bytes} {records : List Entries} :
    StreamOf loads limits gunzip budget wire records ↔
      wire.length ≤ limits.maxWireBytes ∧ Ends gunzip wire ∧ ∃ data, Carries gunzip wire data ∧
        Decodable loads limits budget data ∧ Framed loads limits data records [] := by
  constructor
  · rintro ⟨hwire, data, hcarries, hends, hlimit, hbudget, lines, hdata, hlines, hholds⟩
    have hsplit : data.splitOn newline = lines ++ [[]] :=
      splitOn_newline_iff.mpr ⟨by simpa using hdata, hlines, by simp⟩
    have hframed : Framed loads limits data records [] := ⟨lines, hsplit, hholds, Nat.zero_le _⟩
    exact ⟨hwire, hends, data, hcarries, ⟨hlimit, hbudget, _, _, hframed⟩, hframed⟩
  · rintro ⟨hwire, hends, data, hcarries, ⟨hlimit, hbudget, -⟩, lines, hsplit, hholds, -⟩
    obtain ⟨hdata, hlines, -⟩ := splitOn_newline_iff.mp hsplit
    exact ⟨hwire, data, hcarries, hends, hlimit, hbudget, lines, by simpa using hdata, hlines,
      hholds⟩

theorem decodeStream_ok_iff (hzlib : Decompresses gunzip) {cuts : List Bytes}
    {records : List Entries} :
    decodeStream loads limits (rounds + 1) gunzip budget cuts = .ok records ↔
      StreamOf loads limits gunzip budget cuts.flatten records := by
  obtain ⟨hreceived, hreceivable⟩ := feedAll_received rounds hzlib cuts
    (received_start loads limits budget hzlib)
  rw [List.nil_append] at hreceivable
  rw [streamOf_iff]
  unfold decodeStream
  constructor
  · intro h
    obtain ⟨decoder, hfed, h⟩ := bind_eq_ok.mp h
    obtain ⟨decoder', hfinish, h⟩ := bind_eq_ok.mp h
    obtain ⟨all, hall⟩ := hreceived decoder hfed
    rw [List.nil_append] at hall
    obtain ⟨hrecords, hrecord, hends⟩ := (finish_received hzlib hall).1 decoder' hfinish
    cases h
    refine ⟨hall.limit, hends, all, hall.carries, hall.decoded.decodable, ?_⟩
    rw [hrecords, ← hrecord]
    exact hall.decoded.framed
  · rintro ⟨hwire, hends, data, hcarries, hdecodable, hframed⟩
    obtain ⟨decoder, hfed⟩ := hreceivable ⟨hwire, data, hcarries, hdecodable⟩
    obtain ⟨all, hall⟩ := hreceived decoder hfed
    rw [List.nil_append] at hall
    cases hall.carries.unique hcarries
    obtain ⟨hrecords, hrecord⟩ := hall.decoded.framed.unique hframed
    obtain ⟨decoder', hfinish⟩ := (finish_received hzlib hall).2 hrecord hends
    have hsame := ((finish_received hzlib hall).1 decoder' hfinish).1
    refine bind_eq_ok.mpr ⟨decoder, hfed, bind_eq_ok.mpr ⟨decoder', hfinish, ?_⟩⟩
    rw [hsame, hrecords]
    rfl

/-- What is delivered depends on the bytes alone, and it is what their lines hold. -/
theorem decodeStream_fragmentation (hzlib : Decompresses gunzip) :
    (∀ cuts cuts' : List Bytes, cuts.flatten = cuts'.flatten →
      (decodeStream loads limits (rounds + 1) gunzip budget cuts).toOption =
        (decodeStream loads limits (rounds + 1) gunzip budget cuts').toOption) ∧
    ∀ (cuts : List Bytes) (records : List Entries),
      decodeStream loads limits (rounds + 1) gunzip budget cuts = .ok records ↔
        StreamOf loads limits gunzip budget cuts.flatten records := by
  refine ⟨fun cuts cuts' hsame => ?_, fun cuts records => decodeStream_ok_iff hzlib⟩
  have htoOption (result : Except StreamError (List Entries)) (records : List Entries) :
      result.toOption = some records ↔ result = .ok records := by
    cases result <;> simp [Except.toOption]
  apply Option.ext
  intro records
  rw [htoOption, htoOption, decodeStream_ok_iff hzlib, decodeStream_ok_iff hzlib, hsame]

end Stream

/-! ## A response in two pieces -/

section Sample

/-- `b'{"type":"hello"}\n{}\n'` and its `gzip` file. -/
def sampleText : Bytes :=
  [123, 34, 116, 121, 112, 101, 34, 58, 34, 104, 101, 108, 108, 111, 34, 125, 10, 123, 125, 10]

def sampleGzip : Bytes :=
  [31, 139, 8, 0, 0, 0, 0, 0, 0, 3, 171, 86, 42, 169, 44, 72, 85, 178, 82, 202, 72, 205, 201, 201,
    87, 170, 229, 170, 174, 229, 2, 0, 144, 82, 33, 183, 20, 0, 0, 0]

/-- What there is to read after `data`: each byte behind the header gives one byte. -/
def sampleInflate (data : Bytes) : Option (Bytes × Bytes × Bool) :=
  if sampleGzip <+: data then some (sampleText, data.drop sampleGzip.length, true)
  else if data <+: sampleGzip then some (sampleText.take (data.length - 11), [], false)
  else none

structure SampleDecompressor where
  seen : Bytes := []
  written : Nat := 0
  tail : Bytes := []
  unused : Bytes := []
  eof : Bool := false
  deriving DecidableEq

def SampleDecompressor.decompress (decoder : SampleDecompressor) (chunk : Bytes) (limit : Nat) :
    Option (Bytes × SampleDecompressor) :=
  (sampleInflate (decoder.seen ++ chunk)).map fun (all, unused, eof) =>
    let piece := all.drop decoder.written
    if limit = 0 ∨ piece.length < limit then
      (piece, ⟨decoder.seen ++ chunk, decoder.written + piece.length, [], unused, eof⟩)
    else (piece.take limit, { decoder with written := decoder.written + limit, tail := chunk ++ [0] })

@[reducible] def sampleZlib : Zlib where
  compress _ raw := raw
  Compressor := Unit
  compressobj _ := ()
  feed _ _ := ([], ())
  finish _ := []
  Decompressor := SampleDecompressor
  decompressobj := {}
  decompress := SampleDecompressor.decompress
  flush decoder _ := some ([], decoder)
  unconsumedTail := SampleDecompressor.tail
  unusedData := SampleDecompressor.unused
  eof := SampleDecompressor.eof

theorem sampleInflate_grows {data more all unused : Bytes} {eof : Bool}
    (h : sampleInflate (data ++ more) = some (all, unused, eof)) :
    ∃ written rest unused' eof', sampleInflate data = some (written, unused', eof') ∧
      all = written ++ rest := by
  have htake (count count' : Nat) (hle : count ≤ count') :
      sampleText.take count' = sampleText.take count ++ (sampleText.take count').drop count := by
    conv_lhs => rw [← List.take_append_drop count (sampleText.take count')]
    rw [List.take_take, Nat.min_eq_left hle]
  have hdata : data <+: data ++ more := List.prefix_append data more
  unfold sampleInflate at h ⊢
  by_cases hfull : sampleGzip <+: data
  · rw [if_pos (hfull.trans hdata)] at h
    cases h
    exact ⟨sampleText, [], _, _, if_pos hfull, by simp⟩
  · rw [if_neg hfull]
    split at h
    · rename_i hwhole
      cases h
      rw [if_pos ((List.prefix_or_prefix_of_prefix hdata hwhole).resolve_right hfull)]
      exact ⟨_, _, _, _, rfl, (List.take_append_drop _ _).symm⟩
    · split at h
      · rename_i hpart
        cases h
        rw [if_pos (hdata.trans hpart)]
        exact ⟨_, _, _, _, rfl, htake _ _ (by rw [List.length_append]; omega)⟩
      · cases h

def SampleDecompressor.Read (data written : Bytes) (decoder : SampleDecompressor) : Prop :=
  decoder.seen = data ∧ decoder.written = written.length ∧
    sampleInflate data = some (written, decoder.unused, decoder.eof)

theorem sample_fed {data written : Bytes} {decoder : sampleZlib.Decompressor}
    (h : @Zlib.Fed sampleZlib (SampleDecompressor.mk [] 0 [] [] false) data written decoder) :
    SampleDecompressor.Read data written decoder := by
  induction h with
  | start => exact ⟨rfl, rfl, by decide⟩
  | @call data written chunk piece limit decoder decoder' _ hcall htail ih =>
      obtain ⟨rfl, hwritten, hinflate⟩ := ih
      obtain ⟨⟨all, unused, eof⟩, hall, heq⟩ := Option.map_eq_some_iff.mp hcall
      obtain ⟨_, rest, _, _, hbefore, rfl⟩ := sampleInflate_grows hall
      cases hinflate.symm.trans hbefore
      simp only [hwritten, List.drop_left] at heq
      split at heq
      · cases heq
        exact ⟨rfl, by rw [List.length_append], hall⟩
      · cases heq
        change chunk ++ [0] = [] at htail
        simp at htail

theorem sample_incremental : @Zlib.Incremental sampleZlib {} := by
  have hone (data : Bytes) : SampleDecompressor.decompress {} data 0 =
      (sampleInflate data).map fun (all, unused, eof) => (all, ⟨data, all.length, [], unused, eof⟩) := by
    simp [SampleDecompressor.decompress]
  have hcall {data written chunk piece : Bytes} {decoder whole : SampleDecompressor}
      (hfed : @Zlib.Fed sampleZlib {} data written decoder)
      (hall : SampleDecompressor.decompress {} (data ++ chunk) 0 = some (written ++ piece, whole)) :
      decoder.seen = data ∧ decoder.written = written.length ∧
        sampleInflate (data ++ chunk) = some (written ++ piece, whole.unused, whole.eof) := by
    obtain ⟨hseen, hwritten, -⟩ := sample_fed hfed
    rw [hone] at hall
    obtain ⟨⟨all, unused, eof⟩, hinflate, heq⟩ := Option.map_eq_some_iff.mp hall
    cases heq
    exact ⟨hseen, hwritten, hinflate⟩
  refine @Zlib.Incremental.mk sampleZlib {} ?_ ?_ ?_ ?_ ?_ ?_
  · exact ⟨_, hone [], rfl, rfl⟩
  · intro data more all whole h
    change SampleDecompressor.decompress _ _ _ = _ at h
    rw [hone] at h
    obtain ⟨⟨all, unused, eof⟩, hinflate, heq⟩ := Option.map_eq_some_iff.mp h
    obtain ⟨written, rest, _, _, hbefore, hrest⟩ := sampleInflate_grows hinflate
    cases heq
    exact ⟨written, rest, _, (hone data).trans (by rw [hbefore]; rfl), hrest⟩
  · intro data written decoder chunk piece limit whole hfed hall hspare
    obtain ⟨hseen, hwritten, hinflate⟩ := hcall hfed hall
    refine ⟨⟨data ++ chunk, written.length + piece.length, [], whole.unused, whole.eof⟩, ?_, rfl,
      rfl, rfl⟩
    change SampleDecompressor.decompress _ _ _ = _
    simp [SampleDecompressor.decompress, hseen, hwritten, hinflate, hspare]
  · intro data written decoder chunk piece limit whole hfed hall hlimit hfull
    obtain ⟨hseen, hwritten, hinflate⟩ := hcall hfed hall
    have hnot : ¬ (limit = 0 ∨ piece.length < limit) := by omega
    refine ⟨{ decoder with written := written.length + limit, tail := chunk ++ [0] }, ?_⟩
    change SampleDecompressor.decompress _ _ _ = _
    simp [SampleDecompressor.decompress, hseen, hwritten, hinflate, hnot]
  · intro data written decoder chunk limit hfed hall hlimit
    obtain ⟨hseen, -, -⟩ := sample_fed hfed
    left
    change SampleDecompressor.decompress _ _ _ = _ at hall ⊢
    rw [hone, Option.map_eq_none_iff] at hall
    rw [SampleDecompressor.decompress, hseen, hall]
    rfl
  · intro data written decoder room hfed hroom
    exact ⟨decoder, rfl, rfl, rfl⟩

/-- `json.loads` on the two lines of the sample. -/
def sampleLoads (line : Bytes) : Except LoadError Json :=
  if line = utf8 "\x7b\"type\":\"hello\"\x7d" then .ok (.object [("type", .text "hello")])
  else if line = utf8 "\x7b\x7d" then .ok (.object [])
  else .error .jsonDecodeError

def sampleLimits : StreamLimits where
  maxWireBytes := 40
  maxDecodedBytes := 20
  maxRecordBytes := 16

theorem sample_streamOf : @StreamOf sampleZlib sampleLoads sampleLimits
    (some ({} : SampleDecompressor)) none sampleGzip [[("type", .text "hello")], []] := by
  have hwhole : SampleDecompressor.decompress {} sampleGzip 0 =
      some (sampleText, ⟨sampleGzip, 20, [], [], true⟩) := by decide +kernel
  refine ⟨by decide, sampleText, ⟨_, hwhole⟩, ?_, by decide, by simp,
    [utf8 "\x7b\"type\":\"hello\"\x7d", utf8 "\x7b\x7d"], by decide +kernel, by decide +kernel, ?_⟩
  · rintro _ ⟨⟩
    exact ⟨_, _, hwhole, rfl, rfl⟩
  · refine .cons ⟨by decide +kernel, by decide +kernel, if_pos rfl⟩
      (.cons ⟨by decide +kernel, by decide +kernel, ?_⟩ .nil)
    unfold sampleLoads
    rw [if_neg (by decide +kernel), if_pos rfl]

/-- The file in one piece, and cut inside a line: the same two records. -/
theorem decodeStream_fragmentation_sample :
    (@decodeStream sampleZlib sampleLoads sampleLimits 1 (some ({} : SampleDecompressor)) none
      [sampleGzip.take 15, sampleGzip.drop 15]).toOption =
      (@decodeStream sampleZlib sampleLoads sampleLimits 1 (some ({} : SampleDecompressor)) none
        [sampleGzip]).toOption ∧
    @decodeStream sampleZlib sampleLoads sampleLimits 1 (some ({} : SampleDecompressor)) none
      [sampleGzip] = .ok [[("type", .text "hello")], []] := by
  obtain ⟨hsame, hiff⟩ := @decodeStream_fragmentation sampleZlib sampleLoads sampleLimits
    (some ({} : SampleDecompressor)) none 0 (by rintro _ ⟨⟩; exact sample_incremental)
  exact ⟨hsame _ _ (by decide), (hiff _ _).mpr sample_streamOf⟩

end Sample

end CppContextEngine.Ingestion
