import Mathlib.Data.String.Basic

/-!
# JSON values

The values that the JSON library returns and the exceptions that it raises.
-/

namespace CppContextEngine.Foundation

/-- A value that `json.loads` returns. -/
inductive Json where
  | null
  | bool (value : Bool)
  | int (value : Int)
  | float (token : String)
  | text (value : String)
  | list (items : List Json)
  | object (entries : List (String × Json))

/-- What `json.loads` raises on bytes. -/
inductive LoadError where
  | jsonDecodeError
  | unicodeDecodeError
  | valueError
  | recursionError
  deriving DecidableEq, Repr

end CppContextEngine.Foundation
