import Mathlib.Data.Rat.Defs
import Mathlib.Algebra.Order.Ring.Unbundled.Rat
import CppContextEngine.Models.Summaries

/-!
# Callsites, call targets and edges

The records that relate calls to functions.  An identifier of a symbol or a
callsite is never blank, and neither is one of a record made from them.
-/

namespace CppContextEngine.Models

open CppContextEngine.Foundation

/-- An identifier that a record's constructor has accepted. -/
abbrev Identifier := { text : String // isBlank text = false }

inductive CallDispatchKind where
  | direct
  | constructor
  | virtual
  | devirtualized
  | lambda
  | genericLambda
  | functor
  | dependentTemplate
  | unresolvedIndirect
  deriving DecidableEq, Repr

instance : StrEnum CallDispatchKind where
  value
    | .direct => "direct"
    | .constructor => "constructor"
    | .virtual => "virtual"
    | .devirtualized => "devirtualized"
    | .lambda => "lambda"
    | .genericLambda => "generic_lambda"
    | .functor => "functor"
    | .dependentTemplate => "dependent_template"
    | .unresolvedIndirect => "unresolved_indirect"
  members := [.direct, .constructor, .virtual, .devirtualized, .lambda, .genericLambda, .functor,
    .dependentTemplate, .unresolvedIndirect]
  mem_members := by rintro (_ | _) <;> simp
  value_injective := by
    intro first second h
    cases first <;> cases second <;> simp_all

inductive GraphRelation where
  | contains
  | references
  | calls
  | inherits
  | overrides
  | usesType
  | includes
  | instantiates
  | specializes
  | generatedByMacro
  deriving DecidableEq, Repr

instance : StrEnum GraphRelation where
  value
    | .contains => "contains"
    | .references => "references"
    | .calls => "calls"
    | .inherits => "inherits"
    | .overrides => "overrides"
    | .usesType => "uses_type"
    | .includes => "includes"
    | .instantiates => "instantiates"
    | .specializes => "specializes"
    | .generatedByMacro => "generated_by_macro"
  members := [.contains, .references, .calls, .inherits, .overrides, .usesType, .includes,
    .instantiates, .specializes, .generatedByMacro]
  mem_members := by rintro (_ | _) <;> simp
  value_injective := by
    intro first second h
    cases first <;> cases second <;> simp_all

structure SourceSpan where
  path : String
  startLine : Nat
  endLine : Nat
  startColumn : Nat
  endColumn : Nat
  positive : 0 < startLine ∧ 0 < endLine ∧ 0 < startColumn ∧ 0 < endColumn
  ordered : startLine < endLine ∨ startLine = endLine ∧ startColumn ≤ endColumn
  deriving DecidableEq

/-- The first character of a file. -/
def SourceSpan.start (path : String) : SourceSpan :=
  ⟨path, 1, 1, 1, 1, by decide, by decide⟩

/-- One syntactic call expression in one compiler invocation. -/
structure CallSite where
  id : Identifier
  dispatchKind : CallDispatchKind
  expansionSpan : SourceSpan
  staticTargetSymbolId : Option Identifier := none
  translationUnitId : String := ""
  buildConfigurationId : String := ""
  buildVariant : String := "default"
  deriving DecidableEq

/-- One compiler-derived target of a callsite. -/
structure CallTarget where
  id : Identifier
  callsiteId : Identifier
  targetSymbolId : Identifier
  certainty : CallTargetCertainty
  confidence : Rat
  confidenceReason : Identifier
  derivation : Identifier
  evidenceSpan : SourceSpan
  translationUnitId : String := ""
  buildConfigurationId : String := ""
  buildVariant : String := "default"
  confidenceRange : 0 ≤ confidence ∧ confidence ≤ 1
  deriving DecidableEq

/-- An edge between two symbols of a build. -/
structure GraphEdge where
  sourceId : Identifier
  targetId : Identifier
  relation : GraphRelation
  buildVariant : String := "default"
  deriving DecidableEq

end CppContextEngine.Models
