import CppContextEngine.Foundation.Utf8

/-!
# Lines and their ends

A text is split behind each end of a line, where the two parts of `cr lf` are
one end.  What follows the last end is a line unless it is empty.  Splitters
with the same ends split alike, and an end that only one of them knows is where
they first differ.
-/

namespace CppContextEngine.Foundation

variable {α : Type}

/-- An element before the rest of its line. -/
def extendFirst (a : α) : List (List α) → List (List α)
  | [] => [[a]]
  | line :: lines => (a :: line) :: lines

section Splitting

variable [DecidableEq α] (cr lf : α) (isEnd : α → Bool)

def splitEnds : List α → List (List α)
  | [] => []
  | [a] => if isEnd a then [[]] else [[a]]
  | a :: b :: rest =>
      if a = cr ∧ b = lf then [] :: splitEnds rest
      else if isEnd a then [] :: splitEnds (b :: rest)
      else extendFirst a (splitEnds (b :: rest))

/-- `cr lf` and a single `cr` are read as `lf`. -/
def universalNewlines : List α → List α
  | [] => []
  | [a] => if a = cr then [lf] else [a]
  | a :: b :: rest =>
      if a = cr ∧ b = lf then lf :: universalNewlines rest
      else (if a = cr then lf else a) :: universalNewlines (b :: rest)

variable {cr lf : α} {isEnd : α → Bool}

theorem splitEnds_ne_nil {text : List α} (h : text ≠ []) : splitEnds cr lf isEnd text ≠ [] := by
  cases text with
  | nil => contradiction
  | cons a rest =>
      cases rest with
      | nil =>
          rw [splitEnds]
          split <;> simp
      | cons b rest =>
          rw [splitEnds]
          split
          · simp
          · split
            · simp
            · cases splitEnds cr lf isEnd (b :: rest) <;> simp [extendFirst]

/-- An element that ends no line goes before what follows it. -/
theorem splitEnds_cons_plain {a : α} (hcr : isEnd cr = true) (ha : isEnd a = false)
    (rest : List α) :
    splitEnds cr lf isEnd (a :: rest) = extendFirst a (splitEnds cr lf isEnd rest) := by
  have hne : a ≠ cr := by
    rintro rfl
    simp [hcr] at ha
  cases rest with
  | nil => simp [splitEnds, ha, extendFirst]
  | cons b rest => simp [splitEnds, ha, hne]

/-- An end before anything but the second part of itself. -/
theorem splitEnds_cons_end {a : α} (ha : isEnd a = true) {rest : List α}
    (hpair : ¬ (a = cr ∧ rest.head? = some lf)) :
    splitEnds cr lf isEnd (a :: rest) = [] :: splitEnds cr lf isEnd rest := by
  cases rest with
  | nil => simp [splitEnds, ha]
  | cons b rest =>
      rw [splitEnds, if_neg, if_pos ha]
      simpa using hpair

theorem splitEnds_cons_pair (rest : List α) :
    splitEnds cr lf isEnd (cr :: lf :: rest) = [] :: splitEnds cr lf isEnd rest := by
  simp [splitEnds]

/-- Reading the newlines first changes no line. -/
theorem splitEnds_universalNewlines (hcr : isEnd cr = true) (hlf : isEnd lf = true)
    (hne : cr ≠ lf) (text : List α) :
    splitEnds cr lf isEnd (universalNewlines cr lf text) = splitEnds cr lf isEnd text := by
  have hlfEnd (rest : List α) :
      splitEnds cr lf isEnd (lf :: rest) = [] :: splitEnds cr lf isEnd rest :=
    splitEnds_cons_end hlf fun h => hne h.1.symm
  induction text using universalNewlines.induct cr lf with
  | case1 => rfl
  | case2 => simp [universalNewlines, splitEnds, hcr, hlf]
  | case3 a ha => simp [universalNewlines, ha]
  | case4 a b rest hpair ih =>
      obtain ⟨rfl, rfl⟩ := hpair
      rw [universalNewlines, if_pos ⟨rfl, rfl⟩, splitEnds_cons_pair, hlfEnd, ih]
  | case5 a b rest hpair ih =>
      rw [universalNewlines, if_neg hpair]
      by_cases ha : a = cr
      · subst ha
        have hsingle : ¬ (a = a ∧ (b :: rest).head? = some lf) := by simpa using hpair
        rw [if_pos rfl, hlfEnd, ih, splitEnds_cons_end hcr hsingle]
      · rw [if_neg ha]
        by_cases hend : isEnd a = true
        · rw [splitEnds_cons_end hend fun h => ha h.1, ih, splitEnds_cons_end hend fun h => ha h.1]
        · have hplain : isEnd a = false := by simpa using hend
          rw [splitEnds_cons_plain hcr hplain, ih, splitEnds_cons_plain hcr hplain]

/-- Splitters that know the same ends of a text split it alike. -/
theorem splitEnds_congr {isEnd' : α → Bool} {text : List α}
    (h : ∀ a ∈ text, isEnd a = isEnd' a) :
    splitEnds cr lf isEnd text = splitEnds cr lf isEnd' text := by
  induction text using universalNewlines.induct cr lf with
  | case1 => rfl
  | case2 => simp [splitEnds, h cr List.mem_cons_self]
  | case3 a _ => simp [splitEnds, h a List.mem_cons_self]
  | case4 a b rest hpair ih =>
      rw [splitEnds, splitEnds, if_pos hpair, if_pos hpair, ih]
      intro c hc
      exact h c (List.mem_cons_of_mem _ (List.mem_cons_of_mem _ hc))
  | case5 a b rest hpair ih =>
      rw [splitEnds, splitEnds, if_neg hpair, if_neg hpair, h a List.mem_cons_self, ih]
      intro c hc
      exact h c (List.mem_cons_of_mem _ hc)

/-- The number of lines grows with the ends, and the first new end cuts a line short. -/
theorem exists_line_ne {isEnd' : α → Bool} (hends : ∀ a, isEnd a = true → isEnd' a = true)
    (hcr : isEnd cr = true) (hlf : isEnd lf = true) {text : List α}
    (h : ∃ a ∈ text, isEnd a = false ∧ isEnd' a = true) :
    ∃ (i : Nat) (line line' : List α), (splitEnds cr lf isEnd text)[i]? = some line ∧
      (splitEnds cr lf isEnd' text)[i]? = some line' ∧ line ≠ line' := by
  induction text using universalNewlines.induct cr lf with
  | case1 => simp at h
  | case2 => simp [hcr] at h
  | case3 a _ =>
      have ha : isEnd a = false ∧ isEnd' a = true := by simpa using h
      exact ⟨0, [a], [], by simp [splitEnds, ha], by simp [splitEnds, ha], by simp⟩
  | case4 a b rest hpair ih =>
      obtain ⟨rfl, rfl⟩ := hpair
      have hrest : ∃ c ∈ rest, isEnd c = false ∧ isEnd' c = true := by
        simpa [hcr, hlf] using h
      obtain ⟨i, line, line', hline, hline', hne⟩ := ih hrest
      rw [splitEnds_cons_pair, splitEnds_cons_pair]
      exact ⟨i + 1, line, line', hline, hline', hne⟩
  | case5 a b rest hpair ih =>
      have hsingle : ¬ (a = cr ∧ (b :: rest).head? = some lf) := by simpa using hpair
      have hcr' := hends cr hcr
      by_cases hend : isEnd a = true
      · have hrest : ∃ c ∈ b :: rest, isEnd c = false ∧ isEnd' c = true := by
          obtain ⟨c, hc, hplain, hother⟩ := h
          rcases List.mem_cons.mp hc with rfl | hc
          · rw [hend] at hplain
            cases hplain
          · exact ⟨c, hc, hplain, hother⟩
        obtain ⟨i, line, line', hline, hline', hne⟩ := ih hrest
        rw [splitEnds_cons_end hend hsingle, splitEnds_cons_end (hends a hend) hsingle]
        exact ⟨i + 1, line, line', hline, hline', hne⟩
      have hplain : isEnd a = false := by simpa using hend
      rw [splitEnds_cons_plain hcr hplain]
      have hlinesNe : splitEnds cr lf isEnd (b :: rest) ≠ [] :=
        splitEnds_ne_nil (List.cons_ne_nil b rest)
      obtain ⟨first, lines, hlines⟩ := List.exists_cons_of_ne_nil hlinesNe
      rw [hlines, extendFirst]
      by_cases hother : isEnd' a = true
      · rw [splitEnds_cons_end hother hsingle]
        exact ⟨0, a :: first, [], rfl, rfl, List.cons_ne_nil _ _⟩
      have hplain' : isEnd' a = false := by simpa using hother
      have hrest : ∃ c ∈ b :: rest, isEnd c = false ∧ isEnd' c = true := by
        obtain ⟨c, hc, hboth⟩ := h
        rcases List.mem_cons.mp hc with rfl | hc
        · exact absurd hboth.2 hother
        · exact ⟨c, hc, hboth⟩
      obtain ⟨i, line, line', hline, hline', hne⟩ := ih hrest
      rw [splitEnds_cons_plain hcr' hplain']
      have hlinesNe' : splitEnds cr lf isEnd' (b :: rest) ≠ [] :=
        splitEnds_ne_nil (List.cons_ne_nil b rest)
      obtain ⟨first', lines', hlines'⟩ := List.exists_cons_of_ne_nil hlinesNe'
      rw [hlines] at hline
      rw [hlines'] at hline' ⊢
      rw [extendFirst]
      cases i with
      | zero =>
          cases hline
          cases hline'
          exact ⟨0, _, _, rfl, rfl, by simpa using hne⟩
      | succ i => exact ⟨i + 1, line, line', hline, hline', hne⟩

end Splitting

/-! ## Lines of encoded text -/

/-- The ends of a compiler's line, as bytes. -/
def isByteEnd (byte : UInt8) : Bool := byte = 10 || byte = 13

/-- The ends of a compiler's line, as characters. -/
def isNewline (c : Char) : Bool := c = '\n' || c = '\r'

theorem isByteEnd_ofNat {n : Nat} (hlt : n < 256) (hlf : n ≠ 10) (hcr : n ≠ 13) :
    isByteEnd (UInt8.ofNat n) = false := by
  have hsmall : ∀ n < 256, n ≠ 10 → n ≠ 13 → isByteEnd (UInt8.ofNat n) = false := by
    decide +kernel
  exact hsmall n hlt hlf hcr

theorem utf8EncodeChar_plain {c : Char} (h : isNewline c = false) :
    ∀ byte ∈ String.utf8EncodeChar c, isByteEnd byte = false := by
  simp only [isNewline, Bool.or_eq_false_iff, decide_eq_false_iff_not] at h
  have hlf : c.val.toNat ≠ 10 := fun hc => h.1 (Char.ext (UInt32.toNat_inj.mp hc))
  have hcr : c.val.toNat ≠ 13 := fun hc => h.2 (Char.ext (UInt32.toNat_inj.mp hc))
  unfold String.utf8EncodeChar
  intro byte hbyte
  simp only at hbyte
  split at hbyte
  · rw [List.mem_singleton.mp hbyte]
    exact isByteEnd_ofNat (by omega) hlf hcr
  · split at hbyte
    · simp only [List.mem_cons, List.not_mem_nil, or_false] at hbyte
      rcases hbyte with rfl | rfl <;> apply isByteEnd_ofNat <;> omega
    · split at hbyte
      · simp only [List.mem_cons, List.not_mem_nil, or_false] at hbyte
        rcases hbyte with rfl | rfl | rfl <;> apply isByteEnd_ofNat <;> omega
      · simp only [List.mem_cons, List.not_mem_nil, or_false] at hbyte
        rcases hbyte with rfl | rfl | rfl | rfl <;> apply isByteEnd_ofNat <;> omega

/-- Bytes that end no line go before what follows them. -/
theorem splitEnds_append_plain {bytes : Bytes} (hne : bytes ≠ [])
    (hplain : ∀ byte ∈ bytes, isByteEnd byte = false) (rest : Bytes) :
    splitEnds 13 10 isByteEnd (bytes ++ rest) =
      match splitEnds 13 10 isByteEnd rest with
      | [] => [bytes]
      | line :: lines => (bytes ++ line) :: lines := by
  induction bytes with
  | nil => contradiction
  | cons byte bytes ih =>
      rw [List.cons_append, splitEnds_cons_plain (by decide) (hplain byte List.mem_cons_self)]
      by_cases hnil : bytes = []
      · subst hnil
        rw [List.nil_append]
        cases splitEnds 13 10 isByteEnd rest <;> rfl
      · rw [ih hnil fun other hother => hplain other (List.mem_cons_of_mem _ hother)]
        cases splitEnds 13 10 isByteEnd rest <;> rfl

theorem head?_encodeChars_ne {c : Char} (hc : c ≠ '\n') (chars : List Char) :
    (encodeChars (c :: chars)).head? ≠ some 10 := by
  intro hhead
  obtain ⟨head, tail, hshape, -⟩ := utf8EncodeChar_shape c
  have hbyte : head = 10 := by
    simpa [encodeChars, hshape] using hhead
  have hmem : (10 : UInt8) ∈ String.utf8EncodeChar c := by
    rw [hshape, hbyte]
    exact List.mem_cons_self
  by_cases hnewline : isNewline c = true
  · have hcr : c = '\r' := by
      simpa [isNewline, hc] using hnewline
    subst hcr
    revert hmem
    decide
  · have hplain := utf8EncodeChar_plain (by simpa using hnewline) 10 hmem
    revert hplain
    decide

theorem splitEnds_encodeChars_cons {c : Char} {rest : List Char}
    (hsingle : ¬ (c = '\r' ∧ rest.head? = some '\n'))
    (ih : splitEnds 13 10 isByteEnd (encodeChars rest) =
      (splitEnds '\r' '\n' isNewline rest).map encodeChars) :
    splitEnds 13 10 isByteEnd (encodeChars (c :: rest)) =
      (splitEnds '\r' '\n' isNewline (c :: rest)).map encodeChars := by
  have hencode : encodeChars (c :: rest) = String.utf8EncodeChar c ++ encodeChars rest := rfl
  by_cases hnewline : isNewline c = true
  · have hbytes : ¬ (c = '\r' ∧ (encodeChars rest).head? = some 10) := by
      rintro ⟨hcr, hhead⟩
      cases rest with
      | nil => simp [encodeChars] at hhead
      | cons d rest => exact head?_encodeChars_ne (fun hd => hsingle ⟨hcr, by simp [hd]⟩) _ hhead
    rw [splitEnds_cons_end hnewline hsingle, List.map_cons, ← ih, hencode]
    simp only [isNewline, Bool.or_eq_true, decide_eq_true_eq] at hnewline
    rcases hnewline with rfl | rfl
    · exact splitEnds_cons_end (by decide) fun h => absurd h.1 (by decide)
    · exact splitEnds_cons_end (by decide) fun h => hbytes ⟨rfl, h.2⟩
  · have hplain : isNewline c = false := by simpa using hnewline
    have hne : String.utf8EncodeChar c ≠ [] := by
      obtain ⟨head, tail, hshape, -⟩ := utf8EncodeChar_shape c
      simp [hshape]
    rw [hencode, splitEnds_append_plain hne (utf8EncodeChar_plain hplain), ih,
      splitEnds_cons_plain (by decide) hplain]
    cases splitEnds '\r' '\n' isNewline rest with
    | nil => simp [extendFirst, encodeChars]
    | cons line lines => simp [extendFirst, encodeChars]

/-- The lines of an encoded text are its lines, encoded. -/
theorem splitEnds_encodeChars (chars : List Char) :
    splitEnds 13 10 isByteEnd (encodeChars chars) =
      (splitEnds '\r' '\n' isNewline chars).map encodeChars := by
  induction chars using universalNewlines.induct '\r' '\n' with
  | case1 => rfl
  | case2 => exact splitEnds_encodeChars_cons (by simp) rfl
  | case3 c hc => exact splitEnds_encodeChars_cons (by simp) rfl
  | case4 a b rest hpair ih =>
      obtain ⟨rfl, rfl⟩ := hpair
      rw [splitEnds_cons_pair, List.map_cons, ← ih]
      exact splitEnds_cons_pair _
  | case5 a b rest hpair ih => exact splitEnds_encodeChars_cons (by simpa using hpair) ih

end CppContextEngine.Foundation
