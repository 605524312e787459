import CppContextEngine.Foundation.Bytes

/-!
# Boundaries in UTF-8 text

A byte of an encoded text starts a character unless its two high bits are
`10`.  The positions that do not point at such a byte are those at which the
text can be cut.
-/

namespace CppContextEngine.Foundation

/-- `(byte & 0xc0) == 0x80` -/
def isContinuation (byte : UInt8) : Bool := byte &&& 0xc0 = 0x80

def encodeChars (chars : List Char) : Bytes := chars.flatMap String.utf8EncodeChar

theorem utf8_eq_encodeChars (text : String) : utf8 text = encodeChars text.toList :=
  utf8_eq_flatMap text

@[simp] theorem utf8_ofList (chars : List Char) : utf8 (String.ofList chars) = encodeChars chars := by
  rw [utf8_eq_encodeChars, String.toList_ofList]

@[simp] theorem encodeChars_append (chars more : List Char) :
    encodeChars (chars ++ more) = encodeChars chars ++ encodeChars more := by
  simp [encodeChars]

theorem continuation_tail : ∀ n < 64, isContinuation (UInt8.ofNat (n + 128)) = true := by decide

theorem continuation_head : (∀ n < 128, isContinuation (UInt8.ofNat n) = false) ∧
    (∀ n < 32, isContinuation (UInt8.ofNat (n + 192)) = false) ∧
    (∀ n < 16, isContinuation (UInt8.ofNat (n + 224)) = false) ∧
    ∀ n < 8, isContinuation (UInt8.ofNat (n + 240)) = false := by decide

/-- A character is encoded as a first byte and up to three others. -/
theorem utf8EncodeChar_shape (c : Char) : ∃ head tail, String.utf8EncodeChar c = head :: tail ∧
    isContinuation head = false ∧ (∀ byte ∈ tail, isContinuation byte = true) ∧
    tail.length ≤ 3 := by
  obtain ⟨hone, htwo, hthree, hfour⟩ := continuation_head
  have htail (n : Nat) : isContinuation (UInt8.ofNat (n % 64 + 128)) = true :=
    continuation_tail _ (Nat.mod_lt _ (by decide))
  unfold String.utf8EncodeChar
  simp only
  split
  · rename_i h
    exact ⟨_, _, rfl, hone _ (by omega), by simp, by simp⟩
  · split
    · exact ⟨_, _, rfl, htwo _ (Nat.mod_lt _ (by decide)),
        List.forall_mem_cons.mpr ⟨htail _, by simp⟩, by simp⟩
    · split
      · exact ⟨_, _, rfl, hthree _ (Nat.mod_lt _ (by decide)), List.forall_mem_cons.mpr ⟨htail _,
          List.forall_mem_cons.mpr ⟨htail _, by simp⟩⟩, by simp⟩
      · exact ⟨_, _, rfl, hfour _ (Nat.mod_lt _ (by decide)), List.forall_mem_cons.mpr ⟨htail _,
          List.forall_mem_cons.mpr ⟨htail _, List.forall_mem_cons.mpr ⟨htail _, by simp⟩⟩⟩, by simp⟩

/-- A position at which an encoded text can be cut. -/
def Boundary (text : Bytes) (position : Nat) : Prop :=
  ∀ byte, text[position]? = some byte → isContinuation byte = false

theorem boundary_of_split (chars more : List Char) :
    Boundary (encodeChars (chars ++ more)) (encodeChars chars).length := by
  intro byte h
  rw [encodeChars_append, List.getElem?_append_right (Nat.le_refl _), Nat.sub_self] at h
  cases more with
  | nil => cases h
  | cons c more =>
      obtain ⟨head, tail, hc, hhead, -⟩ := utf8EncodeChar_shape c
      rw [encodeChars, List.flatMap_cons, hc] at h
      cases h
      exact hhead

theorem split_of_boundary {chars : List Char} : ∀ {position : Nat},
    position ≤ (encodeChars chars).length → Boundary (encodeChars chars) position →
      ∃ before after, chars = before ++ after ∧ (encodeChars before).length = position := by
  induction chars with
  | nil =>
      intro position hle _
      exact ⟨[], [], rfl, (Nat.le_zero.mp hle).symm⟩
  | cons c chars ih =>
      intro position hle hboundary
      obtain ⟨head, tail, hc, -, htail, -⟩ := utf8EncodeChar_shape c
      have hencode : encodeChars (c :: chars) = String.utf8EncodeChar c ++ encodeChars chars := rfl
      rw [hencode] at hle hboundary
      by_cases hzero : position = 0
      · exact ⟨[], c :: chars, rfl, hzero.symm⟩
      by_cases hinside : position < (String.utf8EncodeChar c).length
      · have hbyte : (String.utf8EncodeChar c ++ encodeChars chars)[position]? =
            some ((String.utf8EncodeChar c)[position]) := by
          rw [List.getElem?_append_left hinside, List.getElem?_eq_getElem]
        have hmem : (String.utf8EncodeChar c)[position] ∈ tail := by
          obtain ⟨position, rfl⟩ := Nat.exists_eq_succ_of_ne_zero hzero
          simp only [hc, List.getElem_cons_succ]
          exact List.getElem_mem _
        have hstart := hboundary _ hbyte
        rw [htail _ hmem] at hstart
        cases hstart
      · have hrest : Boundary (encodeChars chars)
            (position - (String.utf8EncodeChar c).length) := by
          intro byte h
          refine hboundary byte ?_
          rw [List.getElem?_append_right (Nat.not_lt.mp hinside)]
          exact h
        rw [List.length_append] at hle
        obtain ⟨before, after, rfl, hlength⟩ := ih (by omega) hrest
        refine ⟨c :: before, after, rfl, ?_⟩
        have hbefore : (encodeChars (c :: before)).length =
            (String.utf8EncodeChar c).length + (encodeChars before).length := by
          simp [encodeChars]
        omega

/-- Of any four positions in a row one is a boundary. -/
theorem boundary_near {chars : List Char} : ∀ {position : Nat},
    position ≤ (encodeChars chars).length →
      ∃ start ≤ position, position ≤ start + 3 ∧ Boundary (encodeChars chars) start := by
  induction chars with
  | nil =>
      intro position hle
      refine ⟨position, Nat.le_refl _, by omega, fun byte h => ?_⟩
      simp [encodeChars] at h
  | cons c chars ih =>
      intro position hle
      obtain ⟨head, tail, hc, hhead, -, htail⟩ := utf8EncodeChar_shape c
      have hencode : encodeChars (c :: chars) = head :: tail ++ encodeChars chars := by
        rw [← hc]
        rfl
      rw [hencode] at hle ⊢
      simp only [List.length_append, List.length_cons] at hle
      by_cases hinside : position ≤ tail.length
      · refine ⟨0, Nat.zero_le _, by omega, fun byte h => ?_⟩
        cases h
        exact hhead
      · obtain ⟨start, hstart, hnear, hboundary⟩ :=
          @ih (position - (tail.length + 1)) (by omega)
        refine ⟨start + (tail.length + 1), by omega, by omega, fun byte h => hboundary byte ?_⟩
        rwa [List.getElem?_append_right (by simp), List.length_cons, Nat.add_sub_cancel] at h

end CppContextEngine.Foundation
