import CppContextEngine.Foundation.LexOrder
import CppContextEngine.Foundation.Utf8

/-!
# The order of encoded texts

UTF-8 keeps the order of code points, so texts compare as their bytes do.
-/

namespace CppContextEngine.Foundation

/-- The bytes of a text, as the numbers that `unsigned char` compares. -/
def byteValues (text : String) : List Nat := (utf8 text).map UInt8.toNat

def codeValues (c : Char) : List Nat := (String.utf8EncodeChar c).map UInt8.toNat

theorem byteValues_eq (text : String) : byteValues text = text.toList.flatMap codeValues := by
  rw [byteValues, utf8_eq_flatMap, List.map_flatMap]
  rfl

theorem codeValues_eq (c : Char) :
    codeValues c =
      if c.toNat ≤ 0x7f then [c.toNat]
      else if c.toNat ≤ 0x7ff then [c.toNat / 64 + 0xc0, c.toNat % 64 + 0x80]
      else if c.toNat ≤ 0xffff then
        [c.toNat / 4096 + 0xe0, c.toNat / 64 % 64 + 0x80, c.toNat % 64 + 0x80]
      else
        [c.toNat / 262144 + 0xf0, c.toNat / 4096 % 64 + 0x80, c.toNat / 64 % 64 + 0x80,
          c.toNat % 64 + 0x80] := by
  have hvalid : c.toNat < 0x110000 := by
    have := c.valid
    simp only [UInt32.isValidChar, Nat.isValidChar] at this
    have hval : c.toNat = c.val.toNat := rfl
    omega
  have hval : c.val.toNat = c.toNat := rfl
  unfold codeValues String.utf8EncodeChar
  simp only [hval]
  split
  · simp; omega
  · split
    · simp; omega
    · split
      · simp; omega
      · simp; omega

theorem orderedCode_codeValues : OrderedCode codeValues := by
  intro a b hab
  have hlt : a.toNat < b.toNat := hab
  rw [codeValues_eq, codeValues_eq]
  split
  · split
    · exact firstLess_of_lt hlt _ _
    · split
      · exact firstLess_of_lt (by omega) _ _
      · split <;> exact firstLess_of_lt (by omega) _ _
  · rw [if_neg (by omega : ¬ b.toNat ≤ 0x7f)]
    split
    · split
      · apply firstLess_of_le (by omega)
        intro hhead
        exact firstLess_of_lt (by omega) _ _
      · split <;> exact firstLess_of_lt (by omega) _ _
    · rw [if_neg (by omega : ¬ b.toNat ≤ 0x7ff)]
      split
      · split
        · apply firstLess_of_le (by omega)
          intro hhead
          apply firstLess_of_le (by omega)
          intro hnext
          exact firstLess_of_lt (by omega) _ _
        · exact firstLess_of_lt (by omega) _ _
      · rw [if_neg (by omega : ¬ b.toNat ≤ 0xffff)]
        apply firstLess_of_le (by omega)
        intro hhead
        apply firstLess_of_le (by omega)
        intro hnext
        apply firstLess_of_le (by omega)
        intro hthird
        exact firstLess_of_lt (by omega) _ _

theorem codeValues_ne_nil (c : Char) : codeValues c ≠ [] := by
  rw [codeValues_eq]
  split
  · simp
  · split
    · simp
    · split <;> simp

/-- Texts compare as their bytes do. -/
theorem strictMono_flatMap_codeValues :
    StrictMono fun text : List Char => text.flatMap codeValues :=
  flatMap_strictMono orderedCode_codeValues codeValues_ne_nil

end CppContextEngine.Foundation
