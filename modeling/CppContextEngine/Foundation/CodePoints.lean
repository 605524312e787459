import CppContextEngine.Foundation.Bytes
import CppContextEngine.Foundation.Text

/-!
# Texts with lone surrogates

A JSON text or a path can hold a surrogate that no character needs.  The error
handler `surrogateescape` writes 128 of them as the bytes they stand for, and
fails at the others.
-/

namespace CppContextEngine.Foundation

inductive CodePoint where
  | scalar (c : Char)
  /-- The code point `0xd800 + offset`. -/
  | surrogate (offset : Fin 2048)
  deriving DecidableEq

/-- A text of the interpreter. -/
abbrev CodePoints := List CodePoint

def CodePoints.ofString (text : String) : CodePoints := text.toList.map .scalar

/-- `not text.strip()` -/
def CodePoints.isBlank (text : CodePoints) : Bool :=
  text.all fun
    | .scalar c => isSpace c
    | .surrogate _ => false

/-- `0xdc80` to `0xdcff` stand for the bytes `0x80` to `0xff`. -/
def CodePoint.encode : CodePoint → Option Bytes
  | .scalar c => some (String.utf8EncodeChar c)
  | .surrogate offset =>
      if 0x480 ≤ offset.val ∧ offset.val < 0x500 then some [UInt8.ofNat (offset.val - 0x400)]
      else none

/-- `text.encode("utf-8", errors="surrogateescape")` -/
def CodePoints.encode : CodePoints → Option Bytes
  | [] => some []
  | point :: rest => return (← point.encode) ++ (← CodePoints.encode rest)

theorem CodePoints.encode_ofString (text : String) :
    (CodePoints.ofString text).encode = some (utf8 text) := by
  rw [utf8_eq_flatMap, CodePoints.ofString]
  induction text.toList with
  | nil => rfl
  | cons c rest ih =>
      rw [List.map_cons, CodePoints.encode, ih]
      rfl

end CppContextEngine.Foundation
