import CppContextEngine.Ingestion.SymbolTextReassembly

/-!
# Emitting symbol texts

The analyzer cuts a text at the last boundary before every 64 KiB.  A character
has four bytes at most, so that a fragment is never empty.
-/

namespace CppContextEngine.Ingestion

open CppContextEngine.Foundation

/-! ## Cutting a text -/

section Retreat

variable {text : Bytes}

theorem retreat_le (stop : Nat) : retreat text stop ≤ stop := by
  induction stop with
  | zero => exact Nat.le_refl _
  | succ stop ih =>
      unfold retreat
      split
      · split <;> omega
      · exact Nat.le_refl _

theorem boundary_retreat (hstart : Boundary text 0) (stop : Nat) :
    Boundary text (retreat text stop) := by
  induction stop with
  | zero => exact hstart
  | succ stop ih =>
      unfold retreat
      split
      · rename_i byte hbyte
        split
        · exact ih
        · rename_i hfirst
          intro other hother
          rw [hbyte] at hother
          cases hother
          exact Bool.eq_false_iff.mpr hfirst
      · rename_i hnone
        intro byte hbyte
        rw [hnone] at hbyte
        cases hbyte

/-- The loop stops at the last boundary. -/
theorem le_retreat {start : Nat} (hboundary : Boundary text start) : ∀ {stop : Nat},
    start ≤ stop → start ≤ retreat text stop := by
  intro stop
  induction stop with
  | zero => exact fun h => h
  | succ stop ih =>
      intro hle
      unfold retreat
      split
      · rename_i byte hbyte
        split
        · rename_i hcontinuation
          apply ih
          by_contra hgt
          obtain rfl : start = stop + 1 := by omega
          rw [hboundary byte hbyte] at hcontinuation
          cases hcontinuation
        · exact hle
      · exact hle

end Retreat

section Cut

variable {before after : List Char}

/-- The end of the fragment that starts behind `before`. -/
def fragmentEnd (before after : List Char) : Nat :=
  retreat (encodeChars (before ++ after))
    (min ((encodeChars before).length + symbolTextChunkBytes) (encodeChars (before ++ after)).length)

theorem fragmentEnd_spec (hafter : after ≠ []) :
    (encodeChars before).length < fragmentEnd before after ∧
      fragmentEnd before after ≤ (encodeChars before).length + symbolTextChunkBytes ∧
      fragmentEnd before after ≤ (encodeChars (before ++ after)).length ∧
      Boundary (encodeChars (before ++ after)) (fragmentEnd before after) := by
  obtain ⟨c, rest, rfl⟩ := List.exists_cons_of_ne_nil hafter
  set text := encodeChars (before ++ c :: rest) with htext
  have hlength : (encodeChars before).length < text.length := by
    obtain ⟨head, tail, hc, -⟩ := utf8EncodeChar_shape c
    rw [htext, encodeChars_append]
    simp [encodeChars, hc]
  have hzero : Boundary text 0 := boundary_of_split [] (before ++ c :: rest)
  set limit := min ((encodeChars before).length + symbolTextChunkBytes) text.length with hlimit
  have hle : limit ≤ text.length := Nat.min_le_right _ _
  have hwithin : fragmentEnd before (c :: rest) ≤ limit := retreat_le limit
  have hchunk : limit ≤ (encodeChars before).length + symbolTextChunkBytes := Nat.min_le_left _ _
  refine ⟨?_, by omega, by omega, boundary_retreat hzero limit⟩
  by_cases hlast : limit = text.length
  · have hend : Boundary text limit := by
      intro byte h
      rw [hlast, List.getElem?_eq_none (Nat.le_refl _)] at h
      cases h
    have hstop : limit ≤ fragmentEnd before (c :: rest) := le_retreat hend (Nat.le_refl _)
    omega
  · obtain ⟨start, hstart, hnear, hboundary⟩ := boundary_near hle
    have hstop : start ≤ fragmentEnd before (c :: rest) := le_retreat hboundary hstart
    unfold symbolTextChunkBytes at hlimit
    omega

/-- A fragment is the text of some of the characters that are left. -/
theorem exists_fragment (hafter : after ≠ []) : ∃ piece rest, after = piece ++ rest ∧ piece ≠ [] ∧
    (encodeChars piece).length ≤ symbolTextChunkBytes ∧
      fragmentEnd before after = (encodeChars (before ++ piece)).length := by
  obtain ⟨hlt, hchunk, hle, hboundary⟩ := @fragmentEnd_spec before after hafter
  rw [encodeChars_append, List.length_append] at hle
  have hboundary' : Boundary (encodeChars after)
      (fragmentEnd before after - (encodeChars before).length) := by
    intro byte h
    apply hboundary byte
    rw [encodeChars_append, List.getElem?_append_right (Nat.le_of_lt hlt)]
    exact h
  obtain ⟨piece, rest, hsplit, hlength⟩ := split_of_boundary (by omega) hboundary'
  refine ⟨piece, rest, hsplit, ?_, by omega, ?_⟩
  · rintro rfl
    rw [show encodeChars [] = [] from rfl, List.length_nil] at hlength
    omega
  · rw [encodeChars_append, List.length_append]
    omega

end Cut

/-! ## The fragments of a text -/

section Fragments

variable {key : String} {field : SymbolTextField}

theorem join_ofList (piece rest : List Char) (pieces : List String)
    (h : String.join pieces = String.ofList rest) :
    String.join (String.ofList piece :: pieces) = String.ofList (piece ++ rest) := by
  rw [String.join_cons, h, String.ofList_append]

theorem emitFragments_spec (fuel : Nat) : ∀ {before after : List Char} {index : Nat},
    (encodeChars after).length ≤ fuel → ∃ pieces,
      emitFragments key field (encodeChars (before ++ after)) fuel (encodeChars before).length
          index =
        some ((pieces.zipIdx index).map fun (piece, index) => fragmentRecord key field index piece) ∧
      String.join pieces = String.ofList after ∧ (MovedText.mk field pieces).Bounded := by
  induction fuel with
  | zero =>
      intro before after index hfuel
      have hempty : encodeChars after = [] := List.length_eq_zero_iff.mp (Nat.le_zero.mp hfuel)
      obtain rfl : after = [] := by
        by_contra hne
        have hpos := (@fragmentEnd_spec [] after hne).1
        have hle := (@fragmentEnd_spec [] after hne).2.2.1
        rw [List.nil_append, hempty] at hle
        simp [encodeChars] at hpos hle
        omega
      exact ⟨[], by simp [emitFragments], rfl, by simp [MovedText.Bounded]⟩
  | succ fuel ih =>
      intro before after index hfuel
      by_cases hafter : after = []
      · subst hafter
        exact ⟨[], by simp [emitFragments], rfl, by simp [MovedText.Bounded]⟩
      obtain ⟨piece, rest, rfl, hpiece, hchunk, hstop⟩ := @exists_fragment before after hafter
      have hmore := (@fragmentEnd_spec before (piece ++ rest) hafter).1
      have hle := (@fragmentEnd_spec before (piece ++ rest) hafter).2.2.1
      have hrest : (encodeChars rest).length ≤ fuel := by
        rw [encodeChars_append, List.length_append] at hfuel
        rw [hstop, encodeChars_append, List.length_append] at hmore
        omega
      obtain ⟨pieces, hpieces, hjoin, hbounded⟩ := @ih (before ++ piece) rest (index + 1) hrest
      rw [List.append_assoc, ← hstop] at hpieces
      have htext : ofUtf8? (((encodeChars (before ++ (piece ++ rest))).drop
          (encodeChars before).length).take
            (fragmentEnd before (piece ++ rest) - (encodeChars before).length)) =
          some (String.ofList piece) := by
        rw [encodeChars_append, List.drop_left, encodeChars_append, hstop, encodeChars_append,
          List.length_append, Nat.add_sub_cancel_left, List.take_left, ← utf8_ofList]
        exact ofUtf8?_utf8 _
      refine ⟨String.ofList piece :: pieces, ?_, join_ofList piece rest pieces hjoin, ?_⟩
      · unfold emitFragments
        rw [if_pos (Nat.lt_of_lt_of_le hmore hle)]
        refine Option.bind_eq_some_iff.mpr ⟨_, htext, Option.bind_eq_some_iff.mpr ⟨_, hpieces, rfl⟩⟩
      · refine List.forall_mem_cons.mpr ⟨⟨?_, by simpa using hchunk⟩, hbounded⟩
        intro hempty
        apply hpiece
        rw [← String.toList_ofList (l := piece), hempty]
        rfl

end Fragments

/-! ## The fragments of a symbol -/

section Symbol

theorem mem_longTexts {fact : Record} {field : SymbolTextField} {text : String} :
    (field, text) ∈ longTexts fact ↔ fact[field.name]? = some (.text text) ∧
      symbolTextChunkBytes < (utf8 text).length := by
  unfold longTexts
  rw [List.mem_filterMap]
  constructor
  · rintro ⟨field', -, h⟩
    split at h
    · rename_i text' hfield
      split at h
      · cases h
      · rename_i hlong
        cases h
        exact ⟨hfield, by omega⟩
    · cases h
  · rintro ⟨hfield, hlong⟩
    refine ⟨field, mem_all field, ?_⟩
    rw [hfield]
    exact if_neg (by omega)

theorem longTexts_sublist (fact : Record) :
    ((longTexts fact).map Prod.fst).Sublist SymbolTextField.all := by
  unfold longTexts
  generalize SymbolTextField.all = fields
  induction fields with
  | nil => exact .slnil
  | cons field fields ih =>
      rw [List.filterMap_cons]
      split
      · exact ih.cons field
      · rename_i found hfound
        split at hfound
        · split at hfound
          · cases hfound
          · cases hfound
            exact ih.cons_cons field
        · cases hfound

theorem getElem?_foldl_erase {α : Type} (name : α → String) (items : List α) (k : String) :
    ∀ fact : Record, (items.foldl (fun fact item => fact.erase (name item)) fact)[k]? =
      if k ∈ items.map name then none else fact[k]? := by
  induction items with
  | nil => simp
  | cons item items ih =>
      intro fact
      rw [List.foldl_cons, ih, Std.ExtTreeMap.getElem?_erase]
      simp only [Std.compare_eq_iff_eq, List.map_cons, List.mem_cons]
      by_cases hitems : k ∈ items.map name
      · simp [hitems]
      · by_cases hitem : k = name item
        · simp [hitem]
        · simp [hitems, hitem, Ne.symm hitem]

variable [NativeLibrary]

theorem descriptionOf_describeText (text : String) : DescriptionOf text (describeText text) := by
  refine ⟨_, rfl, ?_, ?_, ?_⟩
  · refine (Table.keys_eq_iff (by decide)).mpr fun name => ?_
    simp only [Table.ofEntries, List.foldl_cons, List.foldl_nil, Table.getElem?_insert,
      List.mem_cons, List.not_mem_nil, or_false]
    constructor
    · rintro (rfl | rfl) <;> simp
    · intro h
      by_contra hnone
      simp only [not_or] at hnone
      simp [Ne.symm hnone.1, Ne.symm hnone.2] at h
  · simp only [Table.ofEntries, List.foldl_cons, List.foldl_nil, Table.getElem?_insert]
    rfl
  · simp only [Table.ofEntries, List.foldl_cons, List.foldl_nil, Table.getElem?_insert]
    rfl

/-- The record that stands for a symbol whose texts `texts` are long. -/
def descriptorRecord (symbol : Record) (texts : List (SymbolTextField × String)) : Record :=
  (texts.foldl (fun fact text => fact.erase text.1.name) symbol).insert "text_chunks"
    (.object (texts.map fun (field, text) => (field.name, describeText text)))

theorem descriptorOf_descriptorRecord {symbol : Record} {moved : List MovedText}
    (htexts : moved.map (fun text => (text.field, text.text)) = longTexts symbol)
    (hnodup : (moved.map MovedText.field).Nodup) :
    DescriptorOf symbol moved (descriptorRecord symbol (longTexts symbol)) := by
  have hnames : (longTexts symbol).map (fun text => text.1.name) =
      moved.map fun text => text.field.name := by
    rw [← htexts, List.map_map]
    rfl
  have hlookup (name : String) (hname : name ≠ "text_chunks") :
      (descriptorRecord symbol (longTexts symbol))[name]? =
        if name ∈ moved.map fun text => text.field.name then none else symbol[name]? := by
    unfold descriptorRecord
    rw [Table.getElem?_insert, if_neg hname.symm,
      getElem?_foldl_erase fun text : SymbolTextField × String => text.1.name, hnames]
  let entry (text : MovedText) : String × Json := (text.field.name, describeText text.text)
  have hentries : ((longTexts symbol).map fun (field, text) => (field.name, describeText text)) =
      moved.map entry := by
    rw [← htexts, List.map_map]
    rfl
  have hkeys : (moved.map entry).map Prod.fst = moved.map fun text => text.field.name := by
    rw [List.map_map]
    rfl
  refine ⟨fun name hname hmoved => ?_, fun text htext => ⟨?_, ?_⟩, moved.map entry, ?_, ?_, ?_⟩
  · rw [hlookup name hname, if_neg hmoved]
  · rw [hlookup _ (name_ne text.field).2.2, if_pos (List.mem_map_of_mem htext)]
  · have hmem : (text.field, text.text) ∈ longTexts symbol := by
      rw [← htexts]
      exact List.mem_map_of_mem htext
    exact (mem_longTexts.mp hmem).1
  · unfold descriptorRecord
    rw [Table.getElem?_insert, if_pos rfl, hentries]
  · intro name hname
    obtain ⟨value, hvalue⟩ := Table.mem_keys_iff.mp hname
    unfold Table.ofEntries at hvalue
    rw [Table.getElem?_foldl_insert Prod.fst, Option.or_eq_some_iff] at hvalue
    rcases hvalue with hvalue | ⟨-, hvalue⟩
    · obtain ⟨found, hfound, -⟩ := Option.map_eq_some_iff.mp hvalue
      rw [← hkeys, ← lastBy_key Prod.fst hfound]
      exact List.mem_map_of_mem (mem_of_lastBy Prod.fst hfound)
    · simp at hvalue
  · intro text htext
    refine ⟨describeText text.text, ?_, descriptionOf_describeText _⟩
    have hdistinct : ((moved.map entry).map Prod.fst).Nodup := by
      have := hnodup.map name_injective
      rw [List.map_map] at this
      rwa [hkeys]
    unfold Table.ofEntries
    rw [Table.getElem?_foldl_insert Prod.fst,
      lastBy_of_nodup Prod.fst hdistinct (List.mem_map_of_mem htext)]
    rfl

omit [NativeLibrary] in
/-- Every long text is emitted as the fragments of its bytes. -/
theorem exists_moved {key : String} {fuel : Nat} {texts : List (SymbolTextField × String)}
    (hfuel : ∀ text ∈ texts, (utf8 text.2).length ≤ fuel) : ∃ moved : List MovedText,
      texts.mapM (fun (field, text) => emitFragments key field (utf8 text) fuel 0 0) =
        some (moved.map (MovedText.fragments key)) ∧
      moved.map (fun text => (text.field, text.text)) = texts ∧ ∀ text ∈ moved, text.Bounded := by
  induction texts with
  | nil => exact ⟨[], rfl, rfl, by simp⟩
  | cons text texts ih =>
      obtain ⟨hlength, hothers⟩ := List.forall_mem_cons.mp hfuel
      obtain ⟨moved, hmoved, htexts, hbounded⟩ := ih hothers
      obtain ⟨field, text⟩ := text
      rw [utf8_eq_encodeChars] at hlength
      obtain ⟨pieces, hpieces, hjoin, hpiece⟩ :=
        @emitFragments_spec key field fuel [] text.toList 0 hlength
      have hfragments : emitFragments key field (utf8 text) fuel 0 0 =
          some (MovedText.fragments key ⟨field, pieces⟩) := by
        rw [utf8_eq_encodeChars]
        exact hpieces
      refine ⟨⟨field, pieces⟩ :: moved, ?_, ?_, List.forall_mem_cons.mpr ⟨hpiece, hbounded⟩⟩
      · rw [List.mapM_cons]
        exact Option.bind_eq_some_iff.mpr
          ⟨_, hfragments, Option.bind_eq_some_iff.mpr ⟨_, hmoved, rfl⟩⟩
      · rw [List.map_cons, htexts]
        unfold MovedText.text
        rw [hjoin, String.ofList_toList]

/-- A symbol is emitted as it is, or as the group of its long texts. -/
theorem emitSymbolText_spec {symbol : Record} {key : String} {fuel : Nat}
    (hsymbol : IsSymbolRecord symbol key)
    (hfuel : ∀ text ∈ longTexts symbol, (utf8 text.2).length ≤ fuel) :
    (longTexts symbol = [] ∧ emitSymbolText fuel symbol = some [symbol]) ∨
      ∃ moved descriptor fragments,
        emitSymbolText fuel symbol = some (descriptor :: fragments) ∧
        moved.map (fun text : MovedText => (text.field, text.text)) = longTexts symbol ∧
        FragmentGroup symbol moved descriptor fragments ∧ Proper moved := by
  obtain ⟨moved, hmoved, htexts, hbounded⟩ := @exists_moved key fuel (longTexts symbol) hfuel
  by_cases hnone : longTexts symbol = []
  · refine .inl ⟨hnone, ?_⟩
    unfold emitSymbolText
    rw [hnone]
  · have hfields : moved.map MovedText.field = (longTexts symbol).map Prod.fst := by
      rw [← htexts, List.map_map]
      rfl
    have hordered : (moved.map MovedText.field).Sublist SymbolTextField.all := by
      rw [hfields]
      exact longTexts_sublist symbol
    refine .inr ⟨moved, descriptorRecord symbol (longTexts symbol),
      moved.flatMap (MovedText.fragments key), ?_, htexts,
      ⟨hordered, hbounded, descriptorOf_descriptorRecord htexts (hordered.nodup all_nodup), key,
        hsymbol, rfl⟩, ?_, ?_⟩
    · unfold emitSymbolText
      split
      · rename_i hempty
        exact absurd hempty hnone
      · rw [hsymbol.keyed]
        exact Option.bind_eq_some_iff.mpr ⟨_, hmoved, rfl⟩
    · rintro rfl
      exact hnone htexts.symm
    · intro text htext hpieces
      have hmem : (text.field, text.text) ∈ longTexts symbol := by
        rw [← htexts]
        exact List.mem_map_of_mem htext
      have hlong := (mem_longTexts.mp hmem).2
      unfold MovedText.text at hlong
      rw [hpieces] at hlong
      simp at hlong

end Symbol

end CppContextEngine.Ingestion
