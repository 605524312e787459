import CppContextEngine.Foundation.Bytes
import CppContextEngine.Foundation.Fallible
import CppContextEngine.Foundation.Json
import CppContextEngine.Foundation.Table

/-!
# Analyzer records

A record is a JSON object.  Its fields are read by functions that raise the
protocol's error on a value of another type.
-/

namespace CppContextEngine.Ingestion

open CppContextEngine.Foundation

/-- A JSON object; the order of its keys never shows. -/
abbrev Record := Table Json

/-- `AnalyzerProtocolError` with its text, and the `ValueError` of a model's constructor. -/
inductive IngestError where
  | protocol (message : String)
  | value
  deriving DecidableEq, Repr

def protocolError {α : Type} (message : String) : Except IngestError α :=
  .error (.protocol message)

/-- The library functions that the ingestion calls on texts. -/
class NativeLibrary where
  /-- `hashlib.sha256(data).hexdigest()` -/
  hexdigest : Bytes → String
  /-- `str(value)` of a value that is no string. -/
  str : Json → String

namespace Record

/-- `record.get(name)`; an absent field is `None`, as JSON's `null` is. -/
def get (record : Record) (name : String) : Json := (record[name]?).getD .null

/-- `record.get(name) == text` -/
def hasText (record : Record) (name text : String) : Bool :=
  match record[name]? with
  | some (.text value) => value = text
  | _ => false

def invalid {α : Type} (name : String) : Except IngestError α :=
  protocolError ("analyzer record has invalid " ++ name)

/-- `_string` -/
def string (record : Record) (name : String) : Except IngestError String :=
  match record.get name with
  | .text value => if value = "" then invalid name else .ok value
  | _ => invalid name

/-- `_optional_string` -/
def optionalString (record : Record) (name : String) : Except IngestError String :=
  match record[name]? with
  | none => .ok ""
  | some (.text value) => .ok value
  | some _ => invalid name

/-- `_integer` -/
def integer (record : Record) (name : String) : Except IngestError Int :=
  match record.get name with
  | .int value => .ok value
  | _ => invalid name

/-- `_non_negative_integer` -/
def nonNegativeInteger (record : Record) (name : String) : Except IngestError Nat :=
  match record.get name with
  | .int value => if value < 0 then invalid name else .ok value.toNat
  | _ => invalid name

/-- `_optional_non_negative_integer` -/
def optionalNonNegativeInteger (record : Record) (name : String) :
    Except IngestError (Option Nat) :=
  match record.get name with
  | .null => .ok none
  | _ => some <$> nonNegativeInteger record name

/-- `_optional_key` -/
def optionalKey (record : Record) (name : String) : Except IngestError (Option String) :=
  match record.get name with
  | .null => .ok none
  | .text value => if value = "" then invalid name else .ok (some value)
  | _ => invalid name

/-- The texts of a list, if it holds nothing else. -/
def textsOf : Json → Option (List String)
  | .list items => items.mapM fun
      | .text value => some value
      | _ => none
  | _ => none

/-- `_string_list` -/
def stringList (record : Record) (name : String) : Except IngestError (List String) :=
  match textsOf (record.get name) with
  | some texts => .ok texts
  | none => invalid name

/-- `_boolean` -/
def boolean (record : Record) (name : String) : Except IngestError Bool :=
  match record.get name with
  | .bool value => .ok value
  | _ => invalid name

@[simp] theorem hasText_iff {record : Record} {name text : String} :
    record.hasText name text = true ↔ record[name]? = some (.text text) := by
  unfold hasText
  split
  · rename_i value hvalue
    rw [hvalue]
    simp
  · rename_i hne
    simpa using fun h => hne text h

end Record

end CppContextEngine.Ingestion
