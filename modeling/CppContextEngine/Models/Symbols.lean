import CppContextEngine.Models.Calls

/-!
# Symbols and build scopes

A symbol of one build, and the builds that a read includes.
-/

namespace CppContextEngine.Models

open CppContextEngine.Foundation

inductive SymbolKind where
  | file
  | function
  | method
  | classType
  | structType
  | enumType
  | nameSpace
  | variable
  | typeAlias
  | macroName
  | unknown
  deriving DecidableEq, Repr

/-- What a symbol says in one build. -/
structure SymbolText where
  id : Identifier
  qualifiedName : Identifier
  kind : SymbolKind
  span : SourceSpan
  signature : String := ""
  documentation : String := ""
  sourceHash : String := ""
  sourceText : String := ""
  /-- The JSON text of the metadata. -/
  metadata : String := "\x7b\x7d"
  deriving DecidableEq

def defaultBuildVariant : String := "default"

structure CodeSymbol where
  text : SymbolText
  buildConfigurationId : String := ""
  translationUnitId : String := ""
  buildVariant : String := defaultBuildVariant
  variantId : String := ""
  deriving DecidableEq

/-- One or more named variants included in a read operation. -/
structure BuildScope where
  variants : List String
  nonempty : variants ≠ []
  distinct : variants.Nodup
  named : ∀ name ∈ variants, name ≠ "" ∧ (∀ c ∈ name.toList, isSpace c = false) ∧
    name.length ≤ 128
  bounded : variants.length ≤ 16

/-- The scope of the default build alone. -/
def BuildScope.default : BuildScope where
  variants := [defaultBuildVariant]
  nonempty := List.cons_ne_nil _ _
  distinct := List.nodup_singleton _
  named := by
    intro name hname
    have hspaces : defaultBuildVariant.toList.all (!isSpace ·) = true := by decide
    rw [List.mem_singleton.mp hname]
    exact ⟨by decide, by simpa using hspaces, by decide⟩
  bounded := by decide

/-- A symbol that a search found; `Score` stands for the floats. -/
structure SearchHit (Score : Type) where
  symbol : CodeSymbol
  score : Score
  source : String
  deriving DecidableEq

end CppContextEngine.Models
