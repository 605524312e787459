import CppContextEngine.Ingestion.SymbolText

/-!
# Reassembling symbol texts

The records that the receiver accepts are ordinary ones and whole groups, each
a symbol's descriptor and the fragments of its texts.  What the analyzer emits
is such a group, and it does not matter who puts it together.
-/

namespace CppContextEngine.Ingestion

open CppContextEngine.Foundation

/-! ## Groups -/

/-- A text that was moved out of its symbol, cut into pieces. -/
structure MovedText where
  field : SymbolTextField
  pieces : List String

namespace MovedText

def text (moved : MovedText) : String := String.join moved.pieces

/-- Every piece is within the bounds of a fragment. -/
def Bounded (moved : MovedText) : Prop :=
  ∀ piece ∈ moved.pieces, piece ≠ "" ∧ (utf8 piece).length ≤ symbolTextChunkBytes

def fragments (key : String) (moved : MovedText) : List Record :=
  moved.pieces.zipIdx.map fun (piece, index) => fragmentRecord key moved.field index piece

end MovedText

section Groups

variable [NativeLibrary]

/-- The description of `text`. -/
def DescriptionOf (text : String) (description : Json) : Prop :=
  ∃ entries, description = .object entries ∧
    (Table.ofEntries entries).keys = ["bytes", "sha256"] ∧
    (Table.ofEntries entries)["bytes"]? = some (.int (utf8 text).length) ∧
    (Table.ofEntries entries)["sha256"]? = some (.text (NativeLibrary.hexdigest (utf8 text)))

/-- A record of `symbol` whose texts `moved` are replaced by their descriptions. -/
structure DescriptorOf (symbol : Record) (moved : List MovedText) (descriptor : Record) : Prop where
  kept : ∀ name : String, name ≠ "text_chunks" → name ∉ moved.map (fun text => text.field.name) →
    descriptor[name]? = symbol[name]?
  removed : ∀ text ∈ moved, descriptor[text.field.name]? = none ∧
    symbol[text.field.name]? = some (.text text.text)
  described : ∃ entries, descriptor["text_chunks"]? = some (.object entries) ∧
    (∀ name ∈ (Table.ofEntries entries).keys, name ∈ moved.map (fun text => text.field.name)) ∧
    ∀ text ∈ moved, ∃ description, (Table.ofEntries entries)[text.field.name]? = some description ∧
      DescriptionOf text.text description

/-- A symbol's record, with a key and without descriptions. -/
structure IsSymbolRecord (symbol : Record) (key : String) : Prop where
  fact : symbol["fact"]? = some (.text "symbol")
  keyed : symbol["key"]? = some (.text key)
  given : key ≠ ""
  whole : symbol["text_chunks"]? = none

/-- A symbol's descriptor and, in the order of the fields, the fragments of its moved texts. -/
structure FragmentGroup (symbol : Record) (moved : List MovedText) (descriptor : Record)
    (fragments : List Record) : Prop where
  ordered : (moved.map MovedText.field).Sublist SymbolTextField.all
  bounded : ∀ text ∈ moved, text.Bounded
  descriptor : DescriptorOf symbol moved descriptor
  fragments : ∃ key, IsSymbolRecord symbol key ∧
    fragments = moved.flatMap (MovedText.fragments key)

/-- Some text was moved, and no empty one. -/
def Proper (moved : List MovedText) : Prop := moved ≠ [] ∧ ∀ text ∈ moved, text.pieces ≠ []

/--
Ordinary records and whole groups, and what is returned for each record: a
group's symbol, assembled or without its moved texts, for the last of it.
-/
inductive Segmented (assemble : Bool) : List Record → List (Option Record) → Prop where
  | nil : Segmented assemble [] []
  | ordinary {record : Record} {records : List Record} {results : List (Option Record)} :
      record.hasText "fact" symbolTextChunkKind = false → record["text_chunks"]? = none →
        Segmented assemble records results →
          Segmented assemble (record :: records) (some record :: results)
  | group {symbol descriptor : Record} {moved : List MovedText} {fragments records : List Record}
      {results : List (Option Record)} :
      FragmentGroup symbol moved descriptor fragments → Proper moved →
        Segmented assemble records results →
          Segmented assemble (descriptor :: (fragments ++ records))
            (List.replicate fragments.length none ++
              some (if assemble then symbol else descriptor.erase "text_chunks") :: results)

end Groups

/-! ## One fragment -/

@[simp] theorem utf8_empty : utf8 "" = [] := rfl

theorem utf8_append (text more : String) : utf8 (text ++ more) = utf8 text ++ utf8 more := by
  rw [utf8_eq_encodeChars, utf8_eq_encodeChars, utf8_eq_encodeChars, String.toList_append,
    encodeChars_append]

theorem utf8_join (pieces : List String) :
    utf8 (String.join pieces) = pieces.flatMap utf8 := by
  induction pieces with
  | nil => rfl
  | cons piece pieces ih => rw [String.join_cons, utf8_append, List.flatMap_cons, ih]

theorem utf8_length_pos {text : String} : 0 < (utf8 text).length ↔ text ≠ "" := by
  constructor
  · rintro h rfl
    simp at h
  · intro h
    apply Nat.lt_of_lt_of_le ?_ (length_le_utf8 text)
    rwa [Nat.pos_iff_ne_zero, ne_eq, String.length_eq_zero_iff]

section Fragment

variable {key text name : String} {field : SymbolTextField} {index : Nat}

theorem getElem?_fragmentRecord : (fragmentRecord key field index text)[name]? =
    if "text" = name then some (.text text) else if "index" = name then some (.int index)
    else if "field" = name then some (.text field.name) else if "key" = name then some (.text key)
    else if "fact" = name then some (.text symbolTextChunkKind)
    else if "type" = name then some (.text "fact") else none := by
  simp [fragmentRecord, Table.ofEntries]

theorem keys_fragmentRecord : (fragmentRecord key field index text).keys = chunkKeys := by
  refine (Table.keys_eq_iff (by decide)).mpr fun name => ?_
  rw [getElem?_fragmentRecord]
  simp only [chunkKeys, List.mem_cons, List.not_mem_nil, or_false]
  constructor
  · rintro (rfl | rfl | rfl | rfl | rfl | rfl) <;> simp
  · intro h
    by_contra hnone
    simp only [not_or] at hnone
    simp [Ne.symm hnone.1, Ne.symm hnone.2.1, Ne.symm hnone.2.2.1, Ne.symm hnone.2.2.2.1,
      Ne.symm hnone.2.2.2.2.1, Ne.symm hnone.2.2.2.2.2] at h

@[simp] theorem fact_fragmentRecord :
    (fragmentRecord key field index text).hasText "fact" symbolTextChunkKind = true := by
  rw [Record.hasText_iff, getElem?_fragmentRecord]
  rfl

/-- A fragment with the keys and values that come next is that fragment's record. -/
theorem nextFragment_iff {pending : PendingSymbol} {record : Record}
    (hfact : record["fact"]? = some (.text symbolTextChunkKind)) :
    nextFragment pending record = some text ↔
      record = fragmentRecord pending.key pending.current.field pending.index text := by
  constructor
  · intro h
    unfold nextFragment at h
    split at h
    · rename_i index other hindex htext
      split at h
      · rename_i hfields
        obtain ⟨hkeys, htype, hkey, hfield, rfl⟩ := hfields
        cases h
        rw [Record.hasText_iff] at htype hkey hfield
        refine Table.ext_getElem? fun name => ?_
        rw [getElem?_fragmentRecord]
        by_cases hname : name ∈ chunkKeys
        · simp only [chunkKeys, List.mem_cons, List.not_mem_nil, or_false] at hname
          rcases hname with rfl | rfl | rfl | rfl | rfl | rfl <;> simp [*]
        · have habsent : record[name]? = none := by
            rw [← hkeys, Table.mem_keys_iff] at hname
            cases hget : record[name]? with
            | none => rfl
            | some value => exact absurd ⟨value, hget⟩ hname
          simp only [chunkKeys, List.mem_cons, List.not_mem_nil, or_false, not_or] at hname
          rw [habsent]
          simp [Ne.symm hname.1, Ne.symm hname.2.1, Ne.symm hname.2.2.1, Ne.symm hname.2.2.2.1,
            Ne.symm hname.2.2.2.2.1, Ne.symm hname.2.2.2.2.2]
      · cases h
    · cases h
  · rintro rfl
    simp [nextFragment, getElem?_fragmentRecord, keys_fragmentRecord]

end Fragment

/-! ## Steps of the receiver -/

section Steps

variable [NativeLibrary] {assemble : Bool}

namespace PendingSymbol

/-- The symbol with the current text, of which `text` is the last piece. -/
def filled (assemble : Bool) (pending : PendingSymbol) (text : String) : Record :=
  fillText assemble pending.symbol pending.current.field (keepPart assemble pending.parts text)

def extend (assemble : Bool) (pending : PendingSymbol) (text : String) : PendingSymbol :=
  { pending with
    parts := keepPart assemble pending.parts text
    index := pending.index + 1
    received := pending.received + (utf8 text).length
    digested := pending.digested ++ utf8 text }

def advance (assemble : Bool) (pending : PendingSymbol) (text : String) (current : TextDescription)
    (rest : List TextDescription) : PendingSymbol :=
  { symbol := pending.filled assemble text, key := pending.key, current, rest }

/-- `text` is a possible piece that ends the current text. -/
def EndsWith (pending : PendingSymbol) (text : String) : Prop :=
  pending.received + (utf8 text).length = pending.current.bytes ∧
    NativeLibrary.hexdigest (pending.digested ++ utf8 text) = pending.current.sha256

end PendingSymbol

/-- What a piece of a text leads to: another piece, the next text, or the whole symbol. -/
inductive Step (assemble : Bool) (pending : PendingSymbol) (text : String) :
    Option Record → Option PendingSymbol → Prop where
  | more : pending.received + (utf8 text).length < pending.current.bytes →
      Step assemble pending text none (some (pending.extend assemble text))
  | next {current : TextDescription} {rest : List TextDescription} : pending.EndsWith text →
      pending.rest = current :: rest →
        Step assemble pending text none (some (pending.advance assemble text current rest))
  | last : pending.EndsWith text → pending.rest = [] →
      Step assemble pending text (some (pending.filled assemble text)) none

theorem acceptFragment_ok_iff {pending : PendingSymbol} {record : Record} {result : Option Record}
    {pending' : Option PendingSymbol}
    (hfact : record["fact"]? = some (.text symbolTextChunkKind)) :
    acceptFragment assemble pending record = .ok (result, pending') ↔ ∃ text,
      record = fragmentRecord pending.key pending.current.field pending.index text ∧ text ≠ "" ∧
        (utf8 text).length ≤ symbolTextChunkBytes ∧ Step assemble pending text result pending' := by
  unfold acceptFragment
  constructor
  · intro h
    split at h
    · cases h
    · rename_i text htext
      obtain ⟨_, hlength, h⟩ := bind_eq_ok.mp h
      rw [throwIf_eq_ok, not_or, not_not, utf8_length_pos] at hlength
      refine ⟨text, (nextFragment_iff hfact).mp htext, hlength.1.1, hlength.1.2, ?_⟩
      split at h
      · rename_i hwhole
        obtain ⟨_, hdigest, h⟩ := bind_eq_ok.mp h
        rw [throwIf_eq_ok, not_not] at hdigest
        split at h
        · rename_i hrest
          cases h
          exact .last ⟨hwhole, hdigest⟩ hrest
        · rename_i current rest hrest
          cases h
          exact .next ⟨hwhole, hdigest⟩ hrest
      · rename_i hpart
        cases h
        exact .more (by omega)
  · rintro ⟨text, hrecord, hne, hlength, hstep⟩
    rw [(nextFragment_iff hfact).mpr hrecord]
    have hpos := utf8_length_pos.mpr hne
    cases hstep with
    | more hpart =>
        apply bind_eq_ok.mpr ⟨(), throwIf_eq_ok.mpr (by omega), ?_⟩
        rw [if_neg (by omega)]
        rfl
    | next hend hrest =>
        obtain ⟨hwhole, hdigest⟩ := hend
        apply bind_eq_ok.mpr ⟨(), throwIf_eq_ok.mpr (by omega), ?_⟩
        rw [if_pos hwhole]
        apply bind_eq_ok.mpr ⟨(), throwIf_eq_ok.mpr (not_not.mpr hdigest), ?_⟩
        rw [hrest]
        rfl
    | last hend hrest =>
        obtain ⟨hwhole, hdigest⟩ := hend
        apply bind_eq_ok.mpr ⟨(), throwIf_eq_ok.mpr (by omega), ?_⟩
        rw [if_pos hwhole]
        apply bind_eq_ok.mpr ⟨(), throwIf_eq_ok.mpr (not_not.mpr hdigest), ?_⟩
        rw [hrest]
        rfl

theorem accept_pending_iff {pending : PendingSymbol} {record : Record} {result : Option Record}
    {chunks : SymbolTextChunks} :
    SymbolTextChunks.accept ⟨assemble, some pending⟩ record = .ok (result, chunks) ↔
      ∃ text pending', record =
          fragmentRecord pending.key pending.current.field pending.index text ∧ text ≠ "" ∧
        (utf8 text).length ≤ symbolTextChunkBytes ∧ Step assemble pending text result pending' ∧
        chunks = ⟨assemble, pending'⟩ := by
  unfold SymbolTextChunks.accept
  constructor
  · intro h
    split at h
    · rename_i hfact
      obtain ⟨⟨_, pending'⟩, haccept, h⟩ := bind_eq_ok.mp h
      cases h
      obtain ⟨text, hrecord, hne, hlength, hstep⟩ :=
        (acceptFragment_ok_iff (Record.hasText_iff.mp hfact)).mp haccept
      exact ⟨text, pending', hrecord, hne, hlength, hstep, rfl⟩
    · obtain ⟨_, hfinish, -⟩ := bind_eq_ok.mp h
      rw [SymbolTextChunks.finish, throwIf_eq_ok] at hfinish
      exact absurd rfl hfinish
  · rintro ⟨text, pending', hrecord, hne, hlength, hstep, rfl⟩
    have hfact : record.hasText "fact" symbolTextChunkKind = true := by
      rw [hrecord, fact_fragmentRecord]
    rw [if_pos hfact]
    exact bind_eq_ok.mpr ⟨_, (acceptFragment_ok_iff (Record.hasText_iff.mp hfact)).mpr
      ⟨text, hrecord, hne, hlength, hstep⟩, rfl⟩

theorem acceptAll_cons_iff {chunks : SymbolTextChunks} {record : Record} {records : List Record}
    {results : List (Option Record)} : acceptAll chunks (record :: records) = .ok results ↔
      ∃ result chunks' rest, chunks.accept record = .ok (result, chunks') ∧
        acceptAll chunks' records = .ok rest ∧ results = result :: rest := by
  rw [acceptAll, bind_eq_ok]
  constructor
  · rintro ⟨⟨result, chunks'⟩, haccept, h⟩
    obtain ⟨rest, hrest, h⟩ := bind_eq_ok.mp h
    cases h
    exact ⟨result, chunks', rest, haccept, hrest, rfl⟩
  · rintro ⟨result, chunks', rest, haccept, hrest, rfl⟩
    exact ⟨_, haccept, bind_eq_ok.mpr ⟨rest, hrest, rfl⟩⟩

/-! ## The fragments of a symbol -/

/-- A text that its description describes. -/
structure Fits (description : TextDescription) (text : MovedText) : Prop where
  field : text.field = description.field
  given : text.pieces ≠ []
  bounded : text.Bounded
  length : (utf8 text.text).length = description.bytes
  digest : NativeLibrary.hexdigest (utf8 text.text) = description.sha256

namespace PendingSymbol

/-- The pieces of the current text and the texts behind it that complete a symbol. -/
structure Awaits (pending : PendingSymbol) (pieces : List String) (moved : List MovedText) :
    Prop where
  given : pieces ≠ []
  bounded : (MovedText.mk pending.current.field pieces).Bounded
  length : pending.received + (utf8 (String.join pieces)).length = pending.current.bytes
  digest : NativeLibrary.hexdigest (pending.digested ++ utf8 (String.join pieces)) =
    pending.current.sha256
  rest : List.Forall₂ Fits pending.rest moved

def fragments (pending : PendingSymbol) (pieces : List String) (moved : List MovedText) :
    List Record :=
  ((pieces.zipIdx pending.index).map fun (piece, index) =>
    fragmentRecord pending.key pending.current.field index piece) ++
    moved.flatMap (MovedText.fragments pending.key)

def whole (assemble : Bool) (pending : PendingSymbol) (pieces : List String)
    (moved : List MovedText) : Record :=
  moved.foldl (fun symbol text => fillText assemble symbol text.field text.pieces)
    (fillText assemble pending.symbol pending.current.field (pending.parts ++ pieces))

end PendingSymbol

omit [NativeLibrary] in
theorem fillText_keepPart (assemble : Bool) (symbol : Record) (field : SymbolTextField) (parts pieces : List String)
    (text : String) : fillText assemble symbol field (keepPart assemble parts text ++ pieces) =
      fillText assemble symbol field (parts ++ text :: pieces) := by
  cases assemble <;> simp [fillText, keepPart]

section Pieces

variable {pending : PendingSymbol} {text : String} {pieces : List String} {moved : List MovedText}
variable {current : TextDescription} {rest : List TextDescription}

omit [NativeLibrary] in
theorem fragments_extend (assemble : Bool) : pending.fragments (text :: pieces) moved =
    fragmentRecord pending.key pending.current.field pending.index text ::
      (pending.extend assemble text).fragments pieces moved := rfl

omit [NativeLibrary] in
theorem fragments_advance (assemble : Bool) (rest : List TextDescription) :
    pending.fragments [text] (⟨current.field, pieces⟩ :: moved) =
    fragmentRecord pending.key pending.current.field pending.index text ::
      (pending.advance assemble text current rest).fragments pieces moved := rfl

omit [NativeLibrary] in
theorem whole_extend : (pending.extend assemble text).whole assemble pieces moved =
    pending.whole assemble (text :: pieces) moved := by
  unfold PendingSymbol.whole PendingSymbol.extend
  simp only [fillText_keepPart]

omit [NativeLibrary] in
theorem whole_advance (rest : List TextDescription) :
    (pending.advance assemble text current rest).whole assemble pieces moved =
      pending.whole assemble [text] (⟨current.field, pieces⟩ :: moved) := by
  have hfilled := fillText_keepPart assemble pending.symbol pending.current.field
    pending.parts [] text
  rw [List.append_nil] at hfilled
  unfold PendingSymbol.whole PendingSymbol.advance PendingSymbol.filled
  simp only [List.foldl_cons, List.nil_append, hfilled]

omit [NativeLibrary] in
theorem whole_last : pending.filled assemble text = pending.whole assemble [text] [] := by
  have hfilled := fillText_keepPart assemble pending.symbol pending.current.field
    pending.parts [] text
  rw [List.append_nil] at hfilled
  exact hfilled

theorem PendingSymbol.Awaits.fragments_pos (h : pending.Awaits pieces moved) :
    0 < (pending.fragments pieces moved).length := by
  have hpieces := List.length_pos_iff.mpr h.given
  simp only [PendingSymbol.fragments, List.length_append, List.length_map, List.length_zipIdx]
  omega

theorem awaits_extend_iff (assemble : Bool) (hne : text ≠ "") (hlength : (utf8 text).length ≤ symbolTextChunkBytes)
    (hpieces : pieces ≠ []) : (pending.extend assemble text).Awaits pieces moved ↔
      pending.Awaits (text :: pieces) moved := by
  have hbounded : (MovedText.mk pending.current.field (text :: pieces)).Bounded ↔
      (MovedText.mk pending.current.field pieces).Bounded := by
    simp [MovedText.Bounded, hne, hlength]
  constructor
  · intro h
    refine ⟨by simp, hbounded.mpr h.bounded, ?_, ?_, h.rest⟩
    · have := h.length
      simp only [PendingSymbol.extend] at this
      rw [String.join_cons, utf8_append, List.length_append]
      omega
    · have := h.digest
      simp only [PendingSymbol.extend, List.append_assoc] at this
      rw [String.join_cons, utf8_append]
      exact this
  · intro h
    refine ⟨hpieces, hbounded.mp h.bounded, ?_, ?_, h.rest⟩
    · have := h.length
      rw [String.join_cons, utf8_append, List.length_append] at this
      simp only [PendingSymbol.extend]
      omega
    · have := h.digest
      rw [String.join_cons, utf8_append] at this
      simp only [PendingSymbol.extend, List.append_assoc]
      exact this

theorem awaits_single_iff (hne : text ≠ "") (hlength : (utf8 text).length ≤ symbolTextChunkBytes) :
    pending.Awaits [text] moved ↔
      pending.EndsWith text ∧ List.Forall₂ Fits pending.rest moved := by
  constructor
  · intro h
    exact ⟨⟨by simpa using h.length, by simpa using h.digest⟩, h.rest⟩
  · rintro ⟨hend, hrest⟩
    exact ⟨by simp, by simpa [MovedText.Bounded] using ⟨hne, hlength⟩, by simpa using hend.1,
      by simpa using hend.2, hrest⟩

theorem awaits_advance_iff : (pending.advance assemble text current rest).Awaits pieces moved ↔
    Fits current ⟨current.field, pieces⟩ ∧ List.Forall₂ Fits rest moved := by
  constructor
  · intro h
    refine ⟨⟨rfl, h.given, h.bounded, ?_, ?_⟩, h.rest⟩
    · simpa [PendingSymbol.advance, MovedText.text] using h.length
    · simpa [PendingSymbol.advance, MovedText.text] using h.digest
  · rintro ⟨hfits, hrest⟩
    refine ⟨hfits.given, hfits.bounded, ?_, ?_, hrest⟩
    · simpa [PendingSymbol.advance, MovedText.text] using hfits.length
    · simpa [PendingSymbol.advance, MovedText.text] using hfits.digest

end Pieces

omit [NativeLibrary] in
theorem none_cons_replicate {n : Nat} (hn : 0 < n) (rest : List (Option Record)) :
    none :: (List.replicate (n - 1) none ++ rest) = List.replicate n none ++ rest := by
  rw [← List.cons_append, ← List.replicate_succ, Nat.sub_add_cancel hn]

/-- Accepted records complete the symbol before anything else comes. -/
theorem acceptAll_pending {records : List Record} : ∀ {pending : PendingSymbol}
    {results : List (Option Record)},
    acceptAll ⟨assemble, some pending⟩ records = .ok results → ∃ pieces moved more rest,
      pending.Awaits pieces moved ∧ records = pending.fragments pieces moved ++ more ∧
        acceptAll ⟨assemble, none⟩ more = .ok rest ∧
        results = List.replicate ((pending.fragments pieces moved).length - 1) none ++
          some (pending.whole assemble pieces moved) :: rest := by
  induction records with
  | nil =>
      intro pending results h
      obtain ⟨_, hfinish, -⟩ := bind_eq_ok.mp h
      rw [SymbolTextChunks.finish, throwIf_eq_ok] at hfinish
      exact absurd rfl hfinish
  | cons record records ih =>
      intro pending results h
      obtain ⟨result, chunks, rest, haccept, hrest, rfl⟩ := acceptAll_cons_iff.mp h
      obtain ⟨text, pending', rfl, hne, hlength, hstep, rfl⟩ := accept_pending_iff.mp haccept
      cases hstep with
      | more hpart =>
          obtain ⟨pieces, moved, more, rest, hawaits, rfl, hmore, rfl⟩ := ih hrest
          have hpos := hawaits.fragments_pos
          refine ⟨text :: pieces, moved, more, rest,
            (awaits_extend_iff assemble hne hlength hawaits.given).mp hawaits, ?_, hmore, ?_⟩
          · rw [fragments_extend assemble]
            rfl
          · rw [fragments_extend assemble, whole_extend, List.length_cons,
              Nat.add_sub_cancel, none_cons_replicate hpos]
      | @next current others hend hnext =>
          obtain ⟨pieces, moved, more, rest, hawaits, rfl, hmore, rfl⟩ := ih hrest
          have hpos := hawaits.fragments_pos
          refine ⟨[text], ⟨current.field, pieces⟩ :: moved, more, rest, ?_, ?_, hmore, ?_⟩
          · obtain ⟨hfits, hothers⟩ := awaits_advance_iff.mp hawaits
            refine (awaits_single_iff hne hlength).mpr ⟨hend, ?_⟩
            rw [hnext]
            exact .cons hfits hothers
          · rw [fragments_advance assemble others]
            rfl
          · rw [fragments_advance assemble others, whole_advance,
              List.length_cons, Nat.add_sub_cancel, none_cons_replicate hpos]
      | last hend hnext =>
          refine ⟨[text], [], records, rest, (awaits_single_iff hne hlength).mpr ⟨hend, ?_⟩, rfl,
            hrest, ?_⟩
          · rw [hnext]
            exact .nil
          · rw [whole_last]
            rfl

/-- The receiver completes `pending` with these fragments and goes on with `more`. -/
def Completes (assemble : Bool) (more : List Record) (rest : List (Option Record))
    (pending : PendingSymbol) (pieces : List String) (moved : List MovedText) : Prop :=
  acceptAll ⟨assemble, some pending⟩ (pending.fragments pieces moved ++ more) =
    .ok (List.replicate ((pending.fragments pieces moved).length - 1) none ++
      some (pending.whole assemble pieces moved) :: rest)

section Completes

variable {more : List Record} {rest : List (Option Record)} {moved : List MovedText}

theorem completes_extend {pending : PendingSymbol} {text : String} {pieces : List String}
    (h : pending.Awaits (text :: pieces) moved) (hpieces : pieces ≠ [])
    (hrest : Completes assemble more rest (pending.extend assemble text) pieces moved) :
    Completes assemble more rest pending (text :: pieces) moved := by
  have hbounded := h.bounded
  simp only [MovedText.Bounded, List.forall_mem_cons] at hbounded
  obtain ⟨⟨hne, hlength⟩, hothers⟩ := hbounded
  have hawaits := (awaits_extend_iff assemble hne hlength hpieces).mpr h
  have hpos := hawaits.fragments_pos
  obtain ⟨next, pieces', rfl⟩ := List.exists_cons_of_ne_nil hpieces
  have hnext := utf8_length_pos.mpr (hothers next List.mem_cons_self).1
  have hbytes := h.length
  rw [String.join_cons, String.join_cons, utf8_append, utf8_append, List.length_append,
    List.length_append] at hbytes
  unfold Completes
  rw [fragments_extend assemble, ← whole_extend, List.length_cons,
    Nat.add_sub_cancel, List.cons_append]
  refine acceptAll_cons_iff.mpr ⟨none, _, _, accept_pending_iff.mpr
    ⟨text, _, rfl, hne, hlength, .more (by omega), rfl⟩, hrest, ?_⟩
  rw [none_cons_replicate hpos]

theorem completes_pieces
    (hsingle : ∀ {pending : PendingSymbol} {text : String}, pending.Awaits [text] moved →
      Completes assemble more rest pending [text] moved) (pieces : List String) :
    ∀ {pending : PendingSymbol}, pending.Awaits pieces moved →
      Completes assemble more rest pending pieces moved := by
  induction pieces with
  | nil =>
      intro pending h
      exact absurd rfl h.given
  | cons text pieces ih =>
      intro pending h
      by_cases hpieces : pieces = []
      · subst hpieces
        exact hsingle h
      · have hbounded := h.bounded text List.mem_cons_self
        exact completes_extend h hpieces
          (ih ((awaits_extend_iff assemble hbounded.1 hbounded.2 hpieces).mpr h))

/-- The fragments that a symbol awaits are accepted, and only the last returns it. -/
theorem acceptAll_fragments (hmore : acceptAll ⟨assemble, none⟩ more = .ok rest)
    (moved : List MovedText) : ∀ {pieces : List String} {pending : PendingSymbol},
      pending.Awaits pieces moved → Completes assemble more rest pending pieces moved := by
  induction moved with
  | nil =>
      intro pieces pending h
      refine completes_pieces (fun {pending text} h => ?_) pieces h
      have hbounded := h.bounded text List.mem_cons_self
      obtain ⟨hend, hrest⟩ := (awaits_single_iff hbounded.1 hbounded.2).mp h
      rw [List.forall₂_nil_right_iff] at hrest
      refine acceptAll_cons_iff.mpr ⟨_, _, _, accept_pending_iff.mpr
        ⟨text, _, rfl, hbounded.1, hbounded.2, .last hend hrest, rfl⟩, hmore, ?_⟩
      rw [whole_last]
      rfl
  | cons next moved ih =>
      intro pieces pending h
      refine completes_pieces (fun {pending text} h => ?_) pieces h
      have hbounded := h.bounded text List.mem_cons_self
      obtain ⟨hend, hrest⟩ := (awaits_single_iff hbounded.1 hbounded.2).mp h
      obtain ⟨current, others, hfits, hothers, hsplit⟩ := List.forall₂_cons_right_iff.mp hrest
      obtain ⟨field, pieces'⟩ := next
      obtain rfl : field = current.field := hfits.field
      have hawaits : (pending.advance assemble text current others).Awaits pieces' moved :=
        awaits_advance_iff.mpr ⟨hfits, hothers⟩
      have hpos := hawaits.fragments_pos
      unfold Completes
      rw [fragments_advance assemble others,
        ← whole_advance others, List.length_cons, Nat.add_sub_cancel, List.cons_append]
      refine acceptAll_cons_iff.mpr ⟨none, _, _, accept_pending_iff.mpr
        ⟨text, _, rfl, hbounded.1, hbounded.2, .next hend hsplit, rfl⟩, ih hawaits, ?_⟩
      rw [none_cons_replicate hpos]

end Completes

end Steps

/-! ## Descriptors -/

section Descriptors

theorem name_injective : Function.Injective SymbolTextField.name := StrEnum.value_injective

theorem name_ne (field : SymbolTextField) : field.name ≠ "fact" ∧ field.name ≠ "key" ∧
    field.name ≠ "text_chunks" := by
  cases field <;> decide

theorem all_nodup : SymbolTextField.all.Nodup := by decide

theorem mem_all (field : SymbolTextField) : field ∈ SymbolTextField.all := by
  cases field <;> decide

theorem filter_mem_of_sublist {α : Type} [DecidableEq α] {items all : List α}
    (h : items.Sublist all) (hnodup : all.Nodup) : all.filter (· ∈ items) = items := by
  induction h with
  | slnil => rfl
  | @cons items all item h ih =>
      have hitem : item ∉ items := fun hmem => (List.nodup_cons.mp hnodup).1 (h.subset hmem)
      rw [List.filter_cons_of_neg (by simpa using hitem), ih (List.nodup_cons.mp hnodup).2]
  | @cons_cons items all item h ih =>
      have hall := (List.nodup_cons.mp hnodup).1
      have hrest : all.filter (· ∈ item :: items) = all.filter (· ∈ items) := by
        refine List.filter_congr fun other hother => ?_
        have : other ≠ item := fun heq => hall (heq ▸ hother)
        simp [this]
      rw [List.filter_cons_of_pos (by simp), hrest, ih (List.nodup_cons.mp hnodup).2]

theorem parseDescription_iff {field : SymbolTextField} {json : Json}
    {description : TextDescription} : parseDescription field json = some description ↔
      ∃ entries, json = .object entries ∧
        (Table.ofEntries entries).keys = ["bytes", "sha256"] ∧
        (Table.ofEntries entries)["bytes"]? = some (.int description.bytes) ∧
        (Table.ofEntries entries)["sha256"]? = some (.text description.sha256) ∧
        0 < description.bytes ∧ IsDigest description.sha256 ∧ description.field = field := by
  constructor
  · intro h
    unfold parseDescription at h
    split at h
    · rename_i entries
      simp only at h
      split at h
      · rename_i bytes sha256 hbytes hsha256
        split at h
        · rename_i hvalid
          cases h
          refine ⟨entries, rfl, hvalid.1, ?_, hsha256, ?_, hvalid.2.2, rfl⟩
          · rw [hbytes, Int.toNat_of_nonneg hvalid.2.1.le]
          · have := hvalid.2.1
            simp only
            omega
        · cases h
      · cases h
    · cases h
  · rintro ⟨entries, rfl, hkeys, hbytes, hsha256, hpos, hdigest, rfl⟩
    simp [parseDescription, hkeys, hbytes, hsha256, hdigest, Nat.pos_iff_ne_zero.mp hpos]

theorem parseDescriptions_iff {record descriptions : Record} {parsed : List TextDescription} :
    parseDescriptions record descriptions = some parsed ↔
      descriptions.isEmpty = false ∧
        (∀ name ∈ descriptions.keys, name ∈ SymbolTextField.all.map SymbolTextField.name ∧
          record[name]? = none) ∧
        List.Forall₂ (fun (field : SymbolTextField) (description : TextDescription) =>
            ∃ json, descriptions[field.name]? = some json ∧
              parseDescription field json = some description)
          (SymbolTextField.all.filter fun field => descriptions[field.name]?.isSome) parsed := by
  have hstep (field : SymbolTextField) (description : TextDescription) :
      descriptions[field.name]?.bind (parseDescription field) = some description ↔
        ∃ json, descriptions[field.name]? = some json ∧
          parseDescription field json = some description := Option.bind_eq_some_iff
  unfold parseDescriptions
  constructor
  · intro h
    split at h
    · rename_i hkeys
      rw [option_mapM_iff] at h
      simp only [Option.isNone_iff_eq_none] at hkeys
      exact ⟨hkeys.1, hkeys.2, h.imp fun field description => (hstep field description).mp⟩
    · cases h
  · rintro ⟨hempty, hkeys, hparsed⟩
    rw [if_pos ⟨hempty, by simpa only [Option.isNone_iff_eq_none] using hkeys⟩, option_mapM_iff]
    exact hparsed.imp fun field description => (hstep field description).mpr

/-- The symbol with its moved texts. -/
def withTexts (symbol : Record) (texts : List MovedText) : Record :=
  texts.foldl (fun symbol text => symbol.insert text.field.name (.text text.text)) symbol

theorem getElem?_withTexts_mem {texts : List MovedText} (hnodup : (texts.map MovedText.field).Nodup)
    {text : MovedText} (htext : text ∈ texts) (symbol : Record) :
    (withTexts symbol texts)[text.field.name]? = some (.text text.text) := by
  have hnames : (texts.map fun text => text.field.name).Nodup := by
    have := hnodup.map name_injective
    rwa [List.map_map] at this
  unfold withTexts
  rw [Table.getElem?_foldl_insert (fun text : MovedText => text.field.name)
    (fun text => Json.text text.text), lastBy_of_nodup _ hnames htext]
  rfl

theorem getElem?_withTexts_not_mem {texts : List MovedText} {name : String}
    (hname : name ∉ texts.map fun text => text.field.name) (symbol : Record) :
    (withTexts symbol texts)[name]? = symbol[name]? := by
  have habsent : lastBy (fun text : MovedText => text.field.name) name texts = none := by
    rw [← Option.not_isSome_iff_eq_none, lastBy_isSome_iff]
    rintro ⟨text, htext, rfl⟩
    exact hname (List.mem_map_of_mem htext)
  unfold withTexts
  rw [Table.getElem?_foldl_insert (fun text : MovedText => text.field.name)
    (fun text => Json.text text.text), habsent]
  rfl

theorem exists_of_mem_right {α β : Type} {R : α → β → Prop} {xs : List α} {ys : List β}
    (h : List.Forall₂ R xs ys) {y : β} (hy : y ∈ ys) : ∃ x ∈ xs, R x y := by
  induction h with
  | nil => cases hy
  | cons hxy _ ih =>
      rcases List.mem_cons.mp hy with rfl | hy
      · exact ⟨_, List.mem_cons_self, hxy⟩
      · obtain ⟨x, hx, hxy⟩ := ih hy
        exact ⟨x, List.mem_cons_of_mem _ hx, hxy⟩

theorem map_eq_of_forall₂ {α β γ : Type} {f : α → γ} {g : β → γ} {xs : List α} {ys : List β}
    (h : List.Forall₂ (fun x y => f x = g y) xs ys) : xs.map f = ys.map g := by
  induction h with
  | nil => rfl
  | cons hxy _ ih => rw [List.map_cons, List.map_cons, hxy, ih]

theorem getElem?_erase_chunks (record : Record) (name : String) :
    (record.erase "text_chunks")[name]? = if "text_chunks" = name then none else record[name]? := by
  rw [Std.ExtTreeMap.getElem?_erase]
  simp only [Std.compare_eq_iff_eq]

/-- A pending symbol that has just been begun with the descriptions of `texts`. -/
theorem beginSymbol_ok_iff {record : Record} {descriptions : Json} {pending : PendingSymbol} :
    beginSymbol record descriptions = .ok pending ↔ ∃ entries parsed,
      descriptions = .object entries ∧ record["fact"]? = some (.text "symbol") ∧
      record["key"]? = some (.text pending.key) ∧ pending.key ≠ "" ∧
      parseDescriptions record (Table.ofEntries entries) = some (pending.current :: parsed) ∧
      pending = { symbol := record.erase "text_chunks", key := pending.key,
                  current := pending.current, rest := parsed } := by
  unfold beginSymbol
  constructor
  · intro h
    split at h
    · rename_i key entries hkey
      split at h
      · rename_i hsymbol
        split at h
        · rename_i current rest hparsed
          cases h
          exact ⟨entries, rest, rfl, Record.hasText_iff.mp hsymbol.1, hkey, hsymbol.2, hparsed, rfl⟩
        · cases h
      · cases h
    · cases h
  · rintro ⟨entries, parsed, rfl, hfact, hkey, hne, hparsed, hpending⟩
    have hfact' := Record.hasText_iff.mpr hfact
    rw [hkey]
    simp only [hfact', hne, hparsed, ne_eq, not_false_eq_true, and_self, ↓reduceIte]
    exact congrArg Except.ok hpending.symm

variable [NativeLibrary]

/-- The texts that a pending symbol awaits, the current one with the rest. -/
abbrev PendingSymbol.texts (pending : PendingSymbol) (pieces : List String)
    (moved : List MovedText) : List MovedText :=
  ⟨pending.current.field, pieces⟩ :: moved

theorem fits_of_awaits {pending : PendingSymbol} {pieces : List String} {moved : List MovedText}
    (h : pending.Awaits pieces moved) (hreceived : pending.received = 0)
    (hdigested : pending.digested = []) :
    List.Forall₂ Fits (pending.current :: pending.rest) (pending.texts pieces moved) := by
  refine .cons ⟨rfl, h.given, h.bounded, ?_, ?_⟩ h.rest
  · have := h.length
    rw [hreceived, Nat.zero_add] at this
    exact this
  · have := h.digest
    rw [hdigested, List.nil_append] at this
    exact this

theorem descriptionOf_of_fits {field : SymbolTextField} {json : Json}
    {description : TextDescription} {text : MovedText}
    (hparsed : parseDescription field json = some description) (h : Fits description text) :
    DescriptionOf text.text json := by
  obtain ⟨entries, rfl, hkeys, hbytes, hsha256, -, -, -⟩ := parseDescription_iff.mp hparsed
  exact ⟨entries, rfl, hkeys, by rw [h.length, hbytes], by rw [h.digest, hsha256]⟩

/-- A pending symbol with no text received is completed by a group. -/
theorem fragmentGroup_of_awaits {record : Record} {descriptions : Json} {pending : PendingSymbol}
    {pieces : List String} {moved : List MovedText}
    (hdescriptions : record["text_chunks"]? = some descriptions)
    (hbegin : beginSymbol record descriptions = .ok pending)
    (h : pending.Awaits pieces moved) :
    FragmentGroup (pending.whole true pieces moved) (pending.texts pieces moved) record
        (pending.fragments pieces moved) ∧
      pending.whole false pieces moved = record.erase "text_chunks" := by
  obtain ⟨entries, parsed, rfl, hfact, hkey, hne, hparsed, hpending⟩ :=
    beginSymbol_ok_iff.mp hbegin
  have hsymbol : pending.symbol = record.erase "text_chunks" :=
    congrArg PendingSymbol.symbol hpending
  have hparts : pending.parts = [] := congrArg PendingSymbol.parts hpending
  have hindex : pending.index = 0 := congrArg PendingSymbol.index hpending
  have hrest : pending.rest = parsed := congrArg PendingSymbol.rest hpending
  have hfits := fits_of_awaits h (congrArg PendingSymbol.received hpending)
    (congrArg PendingSymbol.digested hpending)
  obtain ⟨hempty, hkeys, hall⟩ := parseDescriptions_iff.mp hparsed
  rw [← hrest] at hall
  set present := SymbolTextField.all.filter fun field =>
    (Table.ofEntries entries)[field.name]?.isSome
  have hfields : (pending.texts pieces moved).map MovedText.field = present := by
    rw [← map_eq_of_forall₂ (f := TextDescription.field) (g := MovedText.field)
      (hfits.imp fun _ _ hfit => hfit.field.symm)]
    have hsame := map_eq_of_forall₂ (f := fun field => field) (g := TextDescription.field)
      (hall.imp fun field description ⟨json, _, hjson⟩ => by
        obtain ⟨-, -, -, -, -, -, -, hfield⟩ := parseDescription_iff.mp hjson
        exact hfield.symm)
    rw [← hsame, List.map_id']
  have hnodup : ((pending.texts pieces moved).map MovedText.field).Nodup := by
    rw [hfields]
    exact all_nodup.filter _
  have hwhole : pending.whole true pieces moved =
      withTexts (record.erase "text_chunks") (pending.texts pieces moved) := by
    unfold PendingSymbol.whole withTexts
    rw [hparts, hsymbol]
    rfl
  have hother (name : String) (hname : ∀ field : SymbolTextField, field.name ≠ name) :
      (pending.whole true pieces moved)[name]? = (record.erase "text_chunks")[name]? := by
    rw [hwhole]
    apply getElem?_withTexts_not_mem
    intro hmem
    obtain ⟨text, -, hname'⟩ := List.mem_map.mp hmem
    exact hname _ hname'
  refine ⟨⟨?_, ?_, ⟨?_, ?_, ?_⟩, pending.key, ⟨?_, ?_, hne, ?_⟩, ?_⟩, ?_⟩
  · rw [hfields]
    exact List.filter_sublist
  · intro text htext
    obtain ⟨_, -, hfit⟩ := exists_of_mem_right hfits htext
    exact hfit.bounded
  · intro name hname htexts
    rw [hwhole, getElem?_withTexts_not_mem htexts, getElem?_erase_chunks, if_neg hname.symm]
  · intro text htext
    refine ⟨?_, by rw [hwhole, getElem?_withTexts_mem hnodup htext]⟩
    have hmem : text.field ∈ present := by
      rw [← hfields]
      exact List.mem_map_of_mem htext
    obtain ⟨value, hvalue⟩ := Option.isSome_iff_exists.mp (List.mem_filter.mp hmem).2
    exact (hkeys _ (Table.mem_keys_iff.mpr ⟨value, hvalue⟩)).2
  · refine ⟨entries, hdescriptions, ?_, ?_⟩
    · intro name hname
      obtain ⟨value, hvalue⟩ := Table.mem_keys_iff.mp hname
      obtain ⟨field, -, rfl⟩ := List.mem_map.mp (hkeys name hname).1
      have hmem : field ∈ present := List.mem_filter.mpr ⟨mem_all field, by simp [hvalue]⟩
      rw [← hfields] at hmem
      obtain ⟨text, htext, rfl⟩ := List.mem_map.mp hmem
      exact List.mem_map_of_mem htext
    · intro text htext
      obtain ⟨description, hdescription, hfit⟩ := exists_of_mem_right hfits htext
      obtain ⟨field, -, json, hjson, hparse⟩ := exists_of_mem_right hall hdescription
      obtain rfl : text.field = field := by
        obtain ⟨-, -, -, -, -, -, -, hfield⟩ := parseDescription_iff.mp hparse
        rw [hfit.field, hfield]
      exact ⟨json, hjson, descriptionOf_of_fits hparse hfit⟩
  · rw [hother _ fun field => (name_ne field).1, getElem?_erase_chunks]
    simpa using hfact
  · rw [hother _ fun field => (name_ne field).2.1, getElem?_erase_chunks]
    simpa using hkey
  · rw [hother _ fun field => (name_ne field).2.2, getElem?_erase_chunks]
    simp
  · unfold PendingSymbol.fragments
    rw [hindex]
    rfl
  · rw [← hsymbol]
    unfold PendingSymbol.whole fillText
    simp

/-- The description that the receiver reads for a moved text. -/
def describe (text : MovedText) : TextDescription :=
  ⟨text.field, (utf8 text.text).length, NativeLibrary.hexdigest (utf8 text.text)⟩

omit [NativeLibrary] in
theorem text_length_pos {text : MovedText} (hbounded : text.Bounded) (hpieces : text.pieces ≠ []) :
    0 < (utf8 text.text).length := by
  obtain ⟨piece, pieces, hsplit⟩ := List.exists_cons_of_ne_nil hpieces
  have hpos := utf8_length_pos.mpr (hbounded piece (by simp [hsplit])).1
  unfold MovedText.text
  rw [hsplit, utf8_join, List.flatMap_cons, List.length_append]
  omega

theorem parseDescription_describe {text : MovedText} {json : Json}
    (hhex : ∀ data, IsDigest (NativeLibrary.hexdigest data)) (hbounded : text.Bounded)
    (hpieces : text.pieces ≠ []) (h : DescriptionOf text.text json) :
    parseDescription text.field json = some (describe text) := by
  obtain ⟨entries, rfl, hkeys, hbytes, hsha256⟩ := h
  exact parseDescription_iff.mpr ⟨entries, rfl, hkeys, hbytes, hsha256,
    text_length_pos hbounded hpieces, hhex _, rfl⟩

omit [NativeLibrary] in
theorem forall₂_map_self {α β γ : Type} {R : β → γ → Prop} {f : α → β} {g : α → γ} {items : List α}
    (h : ∀ item ∈ items, R (f item) (g item)) : List.Forall₂ R (items.map f) (items.map g) := by
  rw [List.forall₂_map_left_iff, List.forall₂_map_right_iff, List.forall₂_same]
  exact h

omit [NativeLibrary] in
theorem mem_names {texts : List MovedText} {name : String}
    (hname : name ∈ texts.map fun text => text.field.name) :
    ∃ text ∈ texts, text.field.name = name := List.mem_map.mp hname

/-- The symbol is its descriptor with the moved texts. -/
theorem DescriptorOf.symbol_eq {symbol descriptor : Record} {texts : List MovedText}
    (h : DescriptorOf symbol texts descriptor) (hnodup : (texts.map MovedText.field).Nodup)
    (hwhole : symbol["text_chunks"]? = none) :
    withTexts (descriptor.erase "text_chunks") texts = symbol := by
  refine Table.ext_getElem? fun name => ?_
  by_cases hmem : name ∈ texts.map fun text => text.field.name
  · obtain ⟨text, htext, rfl⟩ := mem_names hmem
    rw [getElem?_withTexts_mem hnodup htext, (h.removed text htext).2]
  · rw [getElem?_withTexts_not_mem hmem, getElem?_erase_chunks]
    split
    · rename_i hchunks
      rw [← hchunks, hwhole]
    · rename_i hchunks
      exact h.kept name (Ne.symm hchunks) hmem

/-- A group begins a pending symbol that its fragments complete. -/
theorem exists_awaits {symbol descriptor : Record} {texts : List MovedText}
    {fragments : List Record} (hhex : ∀ data, IsDigest (NativeLibrary.hexdigest data))
    (h : FragmentGroup symbol texts descriptor fragments) (hproper : Proper texts) :
    ∃ descriptions pending pieces moved, descriptor["text_chunks"]? = some descriptions ∧
      beginSymbol descriptor descriptions = .ok pending ∧ pending.Awaits pieces moved ∧
      pending.whole true pieces moved = symbol ∧ pending.fragments pieces moved = fragments := by
  obtain ⟨hordered, hbounded, hdescriptor, key, hsymbol, rfl⟩ := h
  obtain ⟨hne, hpieces⟩ := hproper
  obtain ⟨entries, hentries, honly, hdescribed⟩ := hdescriptor.described
  have hnodup : (texts.map MovedText.field).Nodup := hordered.nodup all_nodup
  have hkept (name : String) (hname : ∀ field : SymbolTextField, field.name ≠ name)
      (hchunks : name ≠ "text_chunks") : descriptor[name]? = symbol[name]? := by
    refine hdescriptor.kept name hchunks fun hmem => ?_
    obtain ⟨text, -, htext⟩ := mem_names hmem
    exact hname _ htext
  have hpresent : (SymbolTextField.all.filter fun field =>
      (Table.ofEntries entries)[field.name]?.isSome) = texts.map MovedText.field := by
    rw [← filter_mem_of_sublist hordered all_nodup]
    refine List.filter_congr fun field _ => ?_
    rw [Bool.eq_iff_iff, Option.isSome_iff_exists, decide_eq_true_iff, List.mem_map]
    constructor
    · rintro ⟨value, hvalue⟩
      obtain ⟨text, htext, hname⟩ := mem_names (honly _ (Table.mem_keys_iff.mpr ⟨value, hvalue⟩))
      exact ⟨text, htext, name_injective hname⟩
    · rintro ⟨text, htext, rfl⟩
      obtain ⟨description, hdescription, -⟩ := hdescribed text htext
      exact ⟨description, hdescription⟩
  have hparsed : parseDescriptions descriptor (Table.ofEntries entries) =
      some (texts.map describe) := by
    refine parseDescriptions_iff.mpr ⟨?_, ?_, ?_⟩
    · obtain ⟨text, htext⟩ := List.exists_mem_of_ne_nil texts hne
      obtain ⟨description, hdescription, -⟩ := hdescribed text htext
      rw [Bool.eq_false_iff, ne_eq, Std.ExtTreeMap.isEmpty_iff]
      intro hempty
      rw [hempty] at hdescription
      simp at hdescription
    · intro name hname
      obtain ⟨text, htext, rfl⟩ := mem_names (honly name hname)
      exact ⟨List.mem_map_of_mem (mem_all _), (hdescriptor.removed text htext).1⟩
    · rw [hpresent]
      refine forall₂_map_self fun text htext => ?_
      obtain ⟨json, hjson, hdescription⟩ := hdescribed text htext
      exact ⟨json, hjson, parseDescription_describe hhex (hbounded text htext)
        (hpieces text htext) hdescription⟩
  obtain ⟨⟨field, pieces⟩, moved, rfl⟩ := List.exists_cons_of_ne_nil hne
  have hfits : ∀ text ∈ (⟨field, pieces⟩ : MovedText) :: moved, Fits (describe text) text :=
    fun text htext => ⟨rfl, hpieces text htext, hbounded text htext, rfl, rfl⟩
  let pending : PendingSymbol :=
    { symbol := descriptor.erase "text_chunks", key, current := describe ⟨field, pieces⟩,
      rest := moved.map describe }
  have hawaits : pending.Awaits pieces moved := by
    have hfirst := hfits _ List.mem_cons_self
    refine ⟨hfirst.given, hfirst.bounded, ?_, rfl, ?_⟩
    · exact Nat.zero_add _
    · have hrest := forall₂_map_self (f := describe) (g := fun text => text)
        fun text htext => hfits text (List.mem_cons_of_mem _ htext)
      rwa [List.map_id'] at hrest
  refine ⟨_, pending, pieces, moved, hentries, ?_, hawaits, ?_, rfl⟩
  · refine beginSymbol_ok_iff.mpr ⟨entries, moved.map describe, rfl, ?_, ?_, hsymbol.given,
      hparsed, rfl⟩
    · rw [hkept "fact" (fun field => (name_ne field).1) (by decide), hsymbol.fact]
    · rw [hkept "key" (fun field => (name_ne field).2.1) (by decide), hsymbol.keyed]
  · exact hdescriptor.symbol_eq hnodup hsymbol.whole

end Descriptors

/-! ## Sequences of records -/

section Sequences

variable [NativeLibrary] {assemble : Bool}

theorem accept_idle_iff {record : Record} {result : Option Record} {chunks : SymbolTextChunks} :
    SymbolTextChunks.accept ⟨assemble, none⟩ record = .ok (result, chunks) ↔
      record.hasText "fact" symbolTextChunkKind = false ∧
        ((record["text_chunks"]? = none ∧ result = some record ∧ chunks = ⟨assemble, none⟩) ∨
          ∃ descriptions pending, record["text_chunks"]? = some descriptions ∧
            beginSymbol record descriptions = .ok pending ∧ result = none ∧
            chunks = ⟨assemble, some pending⟩) := by
  have hfinish : SymbolTextChunks.finish ⟨assemble, none⟩ = .ok () := rfl
  unfold SymbolTextChunks.accept
  constructor
  · intro h
    split at h
    · cases h
    · rename_i hfact
      refine ⟨Bool.eq_false_iff.mpr hfact, ?_⟩
      obtain ⟨_, -, h⟩ := bind_eq_ok.mp h
      cases hdescriptions : record["text_chunks"]? with
      | none =>
          rw [hdescriptions] at h
          cases h
          exact .inl ⟨rfl, rfl, rfl⟩
      | some descriptions =>
          rw [hdescriptions] at h
          obtain ⟨pending, hbegin, h⟩ := bind_eq_ok.mp h
          cases h
          exact .inr ⟨descriptions, pending, rfl, hbegin, rfl, rfl⟩
  · rintro ⟨hfact, ⟨hwhole, rfl, rfl⟩ | ⟨descriptions, pending, hdescriptions, hbegin, rfl, rfl⟩⟩
    · simp only [hfact, Bool.false_eq_true, ↓reduceIte, hwhole]
      exact bind_eq_ok.mpr ⟨(), hfinish, rfl⟩
    · simp only [hfact, Bool.false_eq_true, ↓reduceIte, hdescriptions]
      exact bind_eq_ok.mpr ⟨(), hfinish, bind_eq_ok.mpr ⟨pending, hbegin, rfl⟩⟩

theorem FragmentGroup.fact {symbol descriptor : Record} {moved : List MovedText}
    {fragments : List Record} (h : FragmentGroup symbol moved descriptor fragments) :
    descriptor["fact"]? = some (.text "symbol") := by
  obtain ⟨key, hsymbol, -⟩ := h.fragments
  rw [h.descriptor.kept "fact" (by decide), hsymbol.fact]
  intro hmem
  obtain ⟨text, -, hname⟩ := List.mem_map.mp hmem
  exact (name_ne text.field).1 hname

omit [NativeLibrary] in
theorem not_chunk_of_symbol {record : Record} (h : record["fact"]? = some (.text "symbol")) :
    record.hasText "fact" symbolTextChunkKind = false := by
  rw [Bool.eq_false_iff, ne_eq, Record.hasText_iff, h]
  simp [symbolTextChunkKind]

/-- What is accepted consists of ordinary records and whole groups. -/
theorem segmented_of_acceptAll (n : Nat) : ∀ {records : List Record} {results : List (Option Record)},
    records.length ≤ n → acceptAll ⟨assemble, none⟩ records = .ok results →
      Segmented assemble records results := by
  induction n with
  | zero =>
      intro records results hn h
      obtain rfl := List.length_eq_zero_iff.mp (Nat.le_zero.mp hn)
      cases h
      exact .nil
  | succ n ih =>
      intro records results hn h
      cases records with
      | nil =>
          cases h
          exact .nil
      | cons record records =>
          obtain ⟨result, chunks, rest, haccept, hrest, rfl⟩ := acceptAll_cons_iff.mp h
          obtain ⟨hfact, ⟨hwhole, rfl, rfl⟩ | ⟨descriptions, pending, hdescriptions, hbegin, rfl,
            rfl⟩⟩ := accept_idle_iff.mp haccept
          · exact .ordinary hfact hwhole (ih (Nat.le_of_succ_le_succ hn) hrest)
          · obtain ⟨pieces, moved, more, rest, hawaits, rfl, hmore, rfl⟩ := acceptAll_pending hrest
            have hpos := hawaits.fragments_pos
            obtain ⟨hgroup, hfalse⟩ := fragmentGroup_of_awaits hdescriptions hbegin hawaits
            have hproper : Proper (pending.texts pieces moved) := by
              refine ⟨List.cons_ne_nil _ _, fun text htext => ?_⟩
              have hbegun := (beginSymbol_ok_iff.mp hbegin).choose_spec.choose_spec.2.2.2.2.2
              have hfits := fits_of_awaits hawaits (congrArg PendingSymbol.received hbegun)
                (congrArg PendingSymbol.digested hbegun)
              obtain ⟨_, -, hfit⟩ := exists_of_mem_right hfits htext
              exact hfit.given
            have hmore' : Segmented assemble more rest := by
              refine ih ?_ hmore
              simp only [List.length_cons, List.length_append] at hn
              omega
            have hsegmented := @Segmented.group _ assemble _ _ _ _ _ _ hgroup hproper hmore'
            have hresult : (if assemble then pending.whole true pieces moved
                else record.erase "text_chunks") = pending.whole assemble pieces moved := by
              cases assemble
              · exact hfalse.symm
              · rfl
            rw [hresult] at hsegmented
            rw [none_cons_replicate hpos]
            exact hsegmented

theorem acceptAll_of_segmented (hhex : ∀ data, IsDigest (NativeLibrary.hexdigest data))
    {records : List Record} {results : List (Option Record)}
    (h : Segmented assemble records results) :
    acceptAll ⟨assemble, none⟩ records = .ok results := by
  induction h with
  | nil => rfl
  | ordinary hfact hwhole _ ih =>
      exact acceptAll_cons_iff.mpr
        ⟨_, _, _, accept_idle_iff.mpr ⟨hfact, .inl ⟨hwhole, rfl, rfl⟩⟩, ih, rfl⟩
  | @group symbol descriptor moved fragments records results hgroup hproper _ ih =>
      obtain ⟨descriptions, pending, pieces, moved, hdescriptions, hbegin, hawaits, hwhole, rfl⟩ :=
        exists_awaits hhex hgroup hproper
      have hpos := hawaits.fragments_pos
      have hfalse := (fragmentGroup_of_awaits hdescriptions hbegin hawaits).2
      refine acceptAll_cons_iff.mpr ⟨_, _, _, accept_idle_iff.mpr
        ⟨not_chunk_of_symbol hgroup.fact,
          .inr ⟨descriptions, pending, hdescriptions, hbegin, rfl, rfl⟩⟩,
        acceptAll_fragments ih moved hawaits, ?_⟩
      rw [none_cons_replicate hpos]
      cases assemble
      · rw [hfalse]
        rfl
      · rw [hwhole]
        rfl

/-- The receiver accepts just the sequences of ordinary records and whole groups. -/
theorem acceptAll_iff (hhex : ∀ data, IsDigest (NativeLibrary.hexdigest data))
    {records : List Record} {results : List (Option Record)} :
    acceptAll ⟨assemble, none⟩ records = .ok results ↔ Segmented assemble records results :=
  ⟨segmented_of_acceptAll records.length (Nat.le_refl _), acceptAll_of_segmented hhex⟩

end Sequences

end CppContextEngine.Ingestion
