import Mathlib.Data.String.Basic
import Mathlib.Data.List.Dedup
import Mathlib.Data.Set.Finite.List
import Mathlib.Logic.Equiv.List

/-!
# Text and string enumerations

Blank strings as `str.strip` sees them, and enumerations that travel as
strings.  An enumeration lists its members, so the parser from text is one
definition for all of them and never has to be proved again.
-/

namespace CppContextEngine.Foundation

/-- The code points that `str.strip` removes. -/
def isSpace (c : Char) : Bool :=
  let code := c.toNat
  (9 ≤ code && code ≤ 13) || (28 ≤ code && code ≤ 32) || code == 0x85 ||
    code == 0xa0 || code == 0x1680 || (0x2000 ≤ code && code ≤ 0x200a) ||
    code == 0x2028 || code == 0x2029 || code == 0x202f || code == 0x205f ||
    code == 0x3000

/-- `not text.strip()`. -/
def isBlank (text : String) : Bool := text.toList.all isSpace

@[simp] theorem isBlank_empty : isBlank "" = true := by decide

theorem ne_empty_of_not_blank {text : String} (h : isBlank text = false) :
    text ≠ "" := by
  rintro rfl
  simp at h

theorem not_blank_append_left {first : String} (second : String)
    (h : isBlank first = false) : isBlank (first ++ second) = false := by
  simp only [isBlank, String.toList_append, List.all_append] at h ⊢
  simp [h]

theorem not_blank_append_right (first : String) {second : String}
    (h : isBlank second = false) : isBlank (first ++ second) = false := by
  simp only [isBlank, String.toList_append, List.all_append] at h ⊢
  simp [h]

instance instEncodableChar : Encodable Char := Encodable.ofLeftInverse Char.toNat Char.ofNat Char.ofNat_toNat

instance instEncodableString : Encodable String :=
  Encodable.ofLeftInverse String.toList String.ofList fun _ => String.ofList_toList

/-- An enumeration whose members are carried as strings. -/
class StrEnum (ε : Type) where
  value : ε → String
  members : List ε
  mem_members : ∀ member, member ∈ members
  value_injective : Function.Injective value

namespace StrEnum

variable {ε : Type} [StrEnum ε]

/-- The enumeration's constructor from text; `none` is its `ValueError`. -/
def ofValue? (text : String) : Option ε :=
  (members (ε := ε)).find? fun member => value member = text

@[simp] theorem ofValue?_value (member : ε) :
    ofValue? (value member) = some member := by
  cases hfind : (ofValue? (value member) : Option ε) with
  | none =>
      have habsent := List.find?_eq_none.mp hfind member (mem_members member)
      simp at habsent
  | some found =>
      have hvalue := List.find?_some hfind
      simp only [decide_eq_true_eq] at hvalue
      rw [value_injective hvalue]

variable (ε) in
theorem finite : Finite ε :=
  Set.finite_univ_iff.mp ((List.finite_toSet members).subset fun member _ => mem_members member)

theorem value_eq_of_ofValue? {text : String} {member : ε}
    (h : ofValue? text = some member) : value member = text := by
  simpa using List.find?_some h

end StrEnum

end CppContextEngine.Foundation
