import CppContextEngine.Foundation.Json
import CppContextEngine.Foundation.Table
import CppContextEngine.Models.Symbols

/-!
# Rows of an analyzer batch

The rows that one translation unit adds to a batch, beside the summaries.  As
before, what `__post_init__` rejects cannot be built.
-/

namespace CppContextEngine.Models

open CppContextEngine.Foundation

/-! ## Enumerations -/

inductive IndexProfile where
  | full
  | navigation
  deriving DecidableEq, Repr

inductive OccurrenceKind where
  | declaration
  | definition
  | reference
  | call
  | type
  | macroExpansion
  deriving DecidableEq, Repr

inductive CfgBlockRole where
  | normal
  | entry
  | normalExit
  | exceptionalExit
  deriving DecidableEq, Repr

inductive CfgEdgeKind where
  | fallthrough
  | whenTrue
  | whenFalse
  | case
  | default
  | loopBack
  | break
  | continue
  | return
  | goto
  | exception
  deriving DecidableEq, Repr

inductive DataAccessKind where
  | parameterDefinition
  | initialization
  | assignment
  | compoundAssignment
  | increment
  | decrement
  | callReturn
  | unknownClobber
  | read
  | callArgument
  | returnValue
  | condition
  deriving DecidableEq, Repr

inductive DataFlowRelation where
  | reachingDefinition
  | overwrites
  | mustAlias
  | mayAlias
  deriving DecidableEq, Repr

instance : StrEnum SymbolKind where
  value
    | .file => "file"
    | .function => "function"
    | .method => "method"
    | .classType => "class"
    | .structType => "struct"
    | .enumType => "enum"
    | .nameSpace => "namespace"
    | .variable => "variable"
    | .typeAlias => "type_alias"
    | .macroName => "macro"
    | .unknown => "unknown"
  members := [.file, .function, .method, .classType, .structType, .enumType, .nameSpace,
    .variable, .typeAlias, .macroName, .unknown]
  mem_members := by rintro (_ | _) <;> simp
  value_injective := by
    intro first second h
    cases first <;> cases second <;> simp_all

instance : StrEnum OccurrenceKind where
  value
    | .declaration => "declaration"
    | .definition => "definition"
    | .reference => "reference"
    | .call => "call"
    | .type => "type"
    | .macroExpansion => "macro_expansion"
  members := [.declaration, .definition, .reference, .call, .type, .macroExpansion]
  mem_members := by rintro (_ | _) <;> simp
  value_injective := by
    intro first second h
    cases first <;> cases second <;> simp_all

instance : StrEnum CfgBlockRole where
  value
    | .normal => "normal"
    | .entry => "entry"
    | .normalExit => "normal_exit"
    | .exceptionalExit => "exceptional_exit"
  members := [.normal, .entry, .normalExit, .exceptionalExit]
  mem_members := by rintro (_ | _) <;> simp
  value_injective := by
    intro first second h
    cases first <;> cases second <;> simp_all

instance : StrEnum CfgEdgeKind where
  value
    | .fallthrough => "fallthrough"
    | .whenTrue => "true"
    | .whenFalse => "false"
    | .case => "case"
    | .default => "default"
    | .loopBack => "loop_back"
    | .break => "break"
    | .continue => "continue"
    | .return => "return"
    | .goto => "goto"
    | .exception => "exception"
  members := [.fallthrough, .whenTrue, .whenFalse, .case, .default, .loopBack, .break, .continue,
    .return, .goto, .exception]
  mem_members := by rintro (_ | _) <;> simp
  value_injective := by
    intro first second h
    cases first <;> cases second <;> simp_all

instance : StrEnum DataAccessKind where
  value
    | .parameterDefinition => "parameter_definition"
    | .initialization => "initialization"
    | .assignment => "assignment"
    | .compoundAssignment => "compound_assignment"
    | .increment => "increment"
    | .decrement => "decrement"
    | .callReturn => "call_return"
    | .unknownClobber => "unknown_clobber"
    | .read => "read"
    | .callArgument => "call_argument"
    | .returnValue => "return_value"
    | .condition => "condition"
  members := [.parameterDefinition, .initialization, .assignment, .compoundAssignment, .increment,
    .decrement, .callReturn, .unknownClobber, .read, .callArgument, .returnValue, .condition]
  mem_members := by rintro (_ | _) <;> simp
  value_injective := by
    intro first second h
    cases first <;> cases second <;> simp_all

instance : StrEnum DataFlowRelation where
  value
    | .reachingDefinition => "reaching_definition"
    | .overwrites => "overwrites"
    | .mustAlias => "must_alias"
    | .mayAlias => "may_alias"
  members := [.reachingDefinition, .overwrites, .mustAlias, .mayAlias]
  mem_members := by rintro (_ | _) <;> simp
  value_injective := by
    intro first second h
    cases first <;> cases second <;> simp_all

/-! ## Symbols, occurrences and calls -/

/-- A symbol with the metadata that the analyzer sends. -/
structure SymbolRow where
  id : Identifier
  qualifiedName : Identifier
  kind : SymbolKind
  span : SourceSpan
  signature : String := ""
  documentation : String := ""
  sourceHash : String := ""
  sourceText : String := ""
  buildConfigurationId : String := ""
  translationUnitId : String := ""
  buildVariant : String := defaultBuildVariant
  variantId : String := ""
  metadata : Table Json := ∅

structure SymbolOccurrence where
  id : Identifier
  symbolId : Identifier
  span : SourceSpan
  kind : OccurrenceKind
  enclosingSymbolId : Option Identifier := none
  translationUnitId : String := ""
  buildConfigurationId : String := ""
  buildVariant : String := defaultBuildVariant
  /-- The spelling and the expansion of a macro's use. -/
  metadata : Option (SourceSpan × SourceSpan) := none
  deriving DecidableEq

/-- An edge with the unit that it comes from. -/
structure EdgeRow extends GraphEdge where
  id : Identifier
  translationUnitId : String := ""
  buildConfigurationId : String := ""
  deriving DecidableEq

/-- One innermost-to-outermost preprocessor expansion frame. -/
structure MacroExpansionFrame where
  macroSymbolId : Identifier
  name : Identifier
  spellingSpan : SourceSpan
  expansionSpan : SourceSpan
  deriving DecidableEq

/-- The reason of an incomplete target set is not blank, and a complete set has none. -/
def ResolutionAgrees (complete : Bool) (reason : String) : Prop :=
  if complete then reason = "" else isBlank reason = false

instance (complete : Bool) (reason : String) : Decidable (ResolutionAgrees complete reason) := by
  unfold ResolutionAgrees
  infer_instance

/-- A callsite with everything that the analyzer says of it. -/
structure CallSiteRow extends CallSite where
  ownerSymbolId : Identifier
  spellingSpan : Option SourceSpan
  targetSetComplete : Bool
  unresolvedReason : String := ""
  calleeText : String := ""
  expansionStack : List MacroExpansionFrame := []
  agrees : ResolutionAgrees targetSetComplete unresolvedReason
  deriving DecidableEq

/-! ## Control flow -/

/-- One Clang CFG for one function definition in one concrete build. -/
structure CfgGraph where
  id : Identifier
  functionSymbolId : Identifier
  entryBlockId : Identifier
  normalExitBlockId : Identifier
  exceptionalExitBlockId : Option Identifier := none
  translationUnitId : String := ""
  buildConfigurationId : String := ""
  buildVariant : String := defaultBuildVariant
  clangMajor : Int := 18
  factSchemaVersion : Int := 1
  buildOptions : Table Json := ∅

structure CfgBlock where
  id : Identifier
  graphId : Identifier
  index : Nat
  role : CfgBlockRole
  reachable : Bool
  terminatorKind : String := ""
  terminatorText : String := ""
  terminatorSpellingSpan : Option SourceSpan := none
  terminatorExpansionSpan : Option SourceSpan := none
  labelKind : String := ""
  labelText : String := ""
  translationUnitId : String := ""
  buildConfigurationId : String := ""
  buildVariant : String := defaultBuildVariant
  deriving DecidableEq

structure CfgElement where
  id : Identifier
  graphId : Identifier
  blockId : Identifier
  index : Nat
  kind : Identifier
  statementClass : String := ""
  text : String := ""
  spellingSpan : Option SourceSpan := none
  expansionSpan : Option SourceSpan := none
  translationUnitId : String := ""
  buildConfigurationId : String := ""
  buildVariant : String := defaultBuildVariant
  metadata : Table Json := ∅

structure CfgEdge where
  id : Identifier
  graphId : Identifier
  sourceBlockId : Identifier
  targetBlockId : Identifier
  kind : CfgEdgeKind
  successorIndex : Nat
  feasible : Bool := true
  translationUnitId : String := ""
  buildConfigurationId : String := ""
  buildVariant : String := defaultBuildVariant
  deriving DecidableEq

/-! ## Data flow -/

/-- Texts as `dict.fromkeys(x.strip() for x in texts if x.strip())` leaves them. -/
def StrippedTexts (texts : List String) : Prop :=
  texts.Nodup ∧ ∀ text ∈ texts, isBlank text = false

/-- One bounded fixed-point result for a concrete CFG graph. -/
structure DataFlowAnalysis where
  id : Identifier
  graphId : Identifier
  complete : Bool
  incompleteReasons : List String
  iterationCount : Nat
  maxIterations : Nat
  maxAliasTargets : Nat
  maxAccessPathDepth : Nat
  maxLocations : Nat
  translationUnitId : String := ""
  buildConfigurationId : String := ""
  buildVariant : String := defaultBuildVariant
  limitsPositive : 0 < maxIterations ∧ 0 < maxAliasTargets ∧ 0 < maxAccessPathDepth ∧
    0 < maxLocations
  reasonsStripped : StrippedTexts incompleteReasons
  agrees : complete = incompleteReasons.isEmpty

/-- A stable storage or access-path identity within one analysis. -/
structure MemoryLocation where
  id : Identifier
  analysisId : Identifier
  graphId : Identifier
  kind : MemoryLocationKind
  name : Identifier
  typeName : String := ""
  declarationSymbolId : Option Identifier := none
  baseLocationId : Option Identifier := none
  accessPath : List String := []
  isVolatile : Bool := false
  isAtomic : Bool := false
  translationUnitId : String := ""
  buildConfigurationId : String := ""
  buildVariant : String := defaultBuildVariant
  based : kind = .field ∨ kind = .dereference → baseLocationId ≠ none

/-- One compiler-observed definition, use, or conservative clobber. -/
structure DataAccess where
  id : Identifier
  analysisId : Identifier
  graphId : Identifier
  blockId : Identifier
  locationId : Identifier
  kind : DataAccessKind
  sequence : Nat
  cfgElementId : Option Identifier := none
  span : Option SourceSpan := none
  expression : String := ""
  pointeeSymbolIds : List Identifier := []
  pointsToComplete : Bool := true
  translationUnitId : String := ""
  buildConfigurationId : String := ""
  buildVariant : String := defaultBuildVariant
  distinctPointees : pointeeSymbolIds.Nodup

/-- What evidence connects: two accesses, or two storage locations. -/
inductive EvidencePair where
  | accesses (source target : Identifier)
  | locations (source target : Identifier)
  deriving DecidableEq

/-- Evidence connecting accesses or aliasing storage locations. -/
structure DataFlowEvidence where
  id : Identifier
  analysisId : Identifier
  graphId : Identifier
  relation : DataFlowRelation
  certainty : DataFlowCertainty
  reason : Identifier
  pair : EvidencePair
  evidenceSpan : Option SourceSpan := none
  translationUnitId : String := ""
  buildConfigurationId : String := ""
  buildVariant : String := defaultBuildVariant
  deriving DecidableEq

/-! ## The batch -/

/-- The durable fingerprint of one compiler invocation. -/
structure TranslationUnit where
  id : String
  buildConfigurationId : String
  sourcePath : String
  contentHash : String
  dependencies : List (String × String) := []
  buildVariant : String := defaultBuildVariant
  analysisBackend : String := "unknown"
  advancedFactsComplete : Bool := false
  indexProfile : IndexProfile := .full
  navigationFactsComplete : Bool := false
  cfgFactsComplete : Bool := false
  dataFlowFactsComplete : Bool := false
  summaryFactsComplete : Bool := false
  analyzerIdentity : String := ""
  deriving DecidableEq

structure IngestionBatch where
  buildConfigurations : List String := []
  translationUnits : List TranslationUnit := []
  symbols : List SymbolRow := []
  occurrences : List SymbolOccurrence := []
  edges : List EdgeRow := []
  cfgGraphs : List CfgGraph := []
  cfgBlocks : List CfgBlock := []
  cfgElements : List CfgElement := []
  cfgEdges : List CfgEdge := []
  callsites : List CallSiteRow := []
  callTargets : List CallTarget := []
  dataFlowAnalyses : List DataFlowAnalysis := []
  memoryLocations : List MemoryLocation := []
  dataAccesses : List DataAccess := []
  dataFlowEvidence : List DataFlowEvidence := []
  functionSummaries : List FunctionSummary := []
  summaryEffects : List SummaryEffect := []
  summaryReturnOrigins : List SummaryReturnOrigin := []
  callArgumentBindings : List CallArgumentBinding := []
  callResultBindings : List CallResultBinding := []

end CppContextEngine.Models
