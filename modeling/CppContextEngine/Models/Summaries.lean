import CppContextEngine.Foundation.Text

/-!
# Call and summary facts

The transport-neutral records of `models.py` that the interprocedural solver
and its storage exchange.  What `__post_init__` rejects cannot be built here:
each record carries the accepted condition as a field.
-/

namespace CppContextEngine.Models

open CppContextEngine.Foundation

/-! ## Enumerations -/

inductive CallTargetCertainty where
  | certain
  | possible
  deriving DecidableEq, Repr

inductive MemoryLocationKind where
  | local
  | parameter
  | global
  | return
  | dereference
  | field
  | unknown
  deriving DecidableEq, Repr

inductive DataFlowCertainty where
  | certain
  | possible
  deriving DecidableEq, Repr

inductive SummaryEffectKind where
  | read
  | write
  | escape
  deriving DecidableEq, Repr

inductive SummaryReturnOriginKind where
  | location
  | callResult
  | constant
  | unknown
  deriving DecidableEq, Repr

inductive InterproceduralFlowKind where
  | argumentToParameter
  | returnToCaller
  | writeback
  deriving DecidableEq, Repr

instance : StrEnum CallTargetCertainty where
  value
    | .certain => "certain"
    | .possible => "possible"
  members := [.certain, .possible]
  mem_members := by rintro (_ | _) <;> simp
  value_injective := by rintro (_ | _) (_ | _) <;> simp

instance : StrEnum MemoryLocationKind where
  value
    | .local => "local"
    | .parameter => "parameter"
    | .global => "global"
    | .return => "return"
    | .dereference => "dereference"
    | .field => "field"
    | .unknown => "unknown"
  members := [.local, .parameter, .global, .return, .dereference, .field, .unknown]
  mem_members := by rintro (_ | _) <;> simp
  value_injective := by
    rintro (_ | _ | _ | _ | _ | _ | _) (_ | _ | _ | _ | _ | _ | _) <;> simp

instance : StrEnum DataFlowCertainty where
  value
    | .certain => "certain"
    | .possible => "possible"
  members := [.certain, .possible]
  mem_members := by rintro (_ | _) <;> simp
  value_injective := by rintro (_ | _) (_ | _) <;> simp

instance : StrEnum SummaryEffectKind where
  value
    | .read => "read"
    | .write => "write"
    | .escape => "escape"
  members := [.read, .write, .escape]
  mem_members := by rintro (_ | _) <;> simp
  value_injective := by rintro (_ | _ | _) (_ | _ | _) <;> simp

instance : StrEnum SummaryReturnOriginKind where
  value
    | .location => "location"
    | .callResult => "call_result"
    | .constant => "constant"
    | .unknown => "unknown"
  members := [.location, .callResult, .constant, .unknown]
  mem_members := by rintro (_ | _) <;> simp
  value_injective := by rintro (_ | _ | _ | _) (_ | _ | _ | _) <;> simp

instance : StrEnum InterproceduralFlowKind where
  value
    | .argumentToParameter => "argument_to_parameter"
    | .returnToCaller => "return_to_caller"
    | .writeback => "writeback"
  members := [.argumentToParameter, .returnToCaller, .writeback]
  mem_members := by rintro (_ | _) <;> simp
  value_injective := by rintro (_ | _ | _) (_ | _ | _) <;> simp

/-! ## Records -/

/-- An optional identifier that is given and not empty. -/
def Given (identifier : Option String) : Prop :=
  identifier ≠ none ∧ identifier ≠ some ""

instance (identifier : Option String) : Decidable (Given identifier) :=
  inferInstanceAs (Decidable (_ ∧ _))

theorem given_some {identifier : String} (h : isBlank identifier = false) :
    Given (some identifier) :=
  ⟨by simp, by simpa using ne_empty_of_not_blank h⟩

/-- Reasons as `dict.fromkeys(x for x in reasons if x)` leaves them. -/
def NormalizedReasons (reasons : List String) : Prop :=
  reasons.Nodup ∧ "" ∉ reasons

instance (reasons : List String) : Decidable (NormalizedReasons reasons) :=
  inferInstanceAs (Decidable (_ ∧ _))

theorem normalizedReasons_nil : NormalizedReasons [] := by decide

/-- Bounded local and transitive effects for one concrete function body. -/
structure FunctionSummary where
  id : String
  functionSymbolId : String
  graphId : String
  analysisId : String
  parameterModes : List String
  parameterLocationIds : List String
  localComplete : Bool
  localIncompleteReasons : List String
  complete : Bool
  incompleteReasons : List String
  recursive : Bool
  iterationCount : Nat
  maxSccIterations : Nat
  maxSccSize : Nat
  maxSummaryEffects : Nat
  solutionHash : String := ""
  translationUnitId : String := ""
  buildConfigurationId : String := ""
  buildVariant : String := "default"
  identified : isBlank id = false ∧ isBlank functionSymbolId = false ∧
    isBlank graphId = false
  limitsPositive : 0 < maxSccIterations ∧ 0 < maxSccSize ∧ 0 < maxSummaryEffects
  localReasonsNormalized : NormalizedReasons localIncompleteReasons
  reasonsNormalized : NormalizedReasons incompleteReasons
  localAgrees : localComplete = localIncompleteReasons.isEmpty
  agrees : complete = incompleteReasons.isEmpty
  deriving DecidableEq

/-- One read, write, or escape retained as evidence. -/
structure SummaryEffect where
  id : String
  summaryId : String
  kind : SummaryEffectKind
  locationKind : MemoryLocationKind
  certainty : DataFlowCertainty
  reason : String
  parameterIndex : Option Nat := none
  accessPath : List String := []
  locationId : Option String := none
  sourceAccessId : Option String := none
  isLocal : Bool := true
  viaCallsiteId : Option String := none
  targetSymbolId : Option String := none
  translationUnitId : String := ""
  buildConfigurationId : String := ""
  buildVariant : String := "default"
  identified : isBlank id = false ∧ isBlank summaryId = false ∧
    isBlank reason = false
  provenance : isLocal = false → Given viaCallsiteId ∧ Given targetSymbolId
  deriving DecidableEq

structure SummaryReturnOrigin where
  id : String
  summaryId : String
  kind : SummaryReturnOriginKind
  certainty : DataFlowCertainty
  reason : String
  locationKind : Option MemoryLocationKind := none
  parameterIndex : Option Nat := none
  accessPath : List String := []
  locationId : Option String := none
  callsiteId : Option String := none
  isLocal : Bool := true
  viaCallsiteId : Option String := none
  targetSymbolId : Option String := none
  translationUnitId : String := ""
  buildConfigurationId : String := ""
  buildVariant : String := "default"
  identified : isBlank id = false ∧ isBlank summaryId = false ∧
    isBlank reason = false
  callResult : kind = .callResult → Given callsiteId
  provenance : isLocal = false → Given viaCallsiteId ∧ Given targetSymbolId
  deriving DecidableEq

structure CallArgumentBinding where
  id : String
  callerSummaryId : String
  callsiteId : String
  argumentIndex : Nat
  locationId : Option String
  locationKind : MemoryLocationKind
  parameterIndex : Option Nat
  accessPath : List String
  writebackCandidate : Bool
  complete : Bool
  incompleteReason : String := ""
  translationUnitId : String := ""
  buildConfigurationId : String := ""
  buildVariant : String := "default"
  identified : isBlank id = false ∧ isBlank callerSummaryId = false ∧
    isBlank callsiteId = false
  agrees : complete = incompleteReason.isEmpty
  deriving DecidableEq

structure CallResultBinding where
  id : String
  callerSummaryId : String
  callsiteId : String
  locationId : String
  definitionAccessId : String
  translationUnitId : String := ""
  buildConfigurationId : String := ""
  buildVariant : String := "default"
  identified : isBlank id = false ∧ isBlank callerSummaryId = false ∧
    isBlank callsiteId = false ∧ isBlank locationId = false ∧
    isBlank definitionAccessId = false
  deriving DecidableEq

/--
The callsite columns that the solver reads.  Every row of the table was
written from a `CallSite`, whose constructor rejects blank identifiers.
-/
structure SummaryCallSiteProjection where
  id : String
  ownerSymbolId : String
  targetSetComplete : Bool
  translationUnitId : String := ""
  buildConfigurationId : String := ""
  buildVariant : String := "default"
  identified : isBlank id = false ∧ isBlank ownerSymbolId = false
  deriving DecidableEq

/-- The target columns that the solver reads. -/
structure SummaryCallTargetProjection where
  id : String
  callsiteId : String
  targetSymbolId : String
  certainty : CallTargetCertainty
  buildVariant : String := "default"
  identified : isBlank id = false ∧ isBlank callsiteId = false ∧
    isBlank targetSymbolId = false
  deriving DecidableEq

/-- One cross-call evidence edge with concrete target and provenance. -/
structure InterproceduralFlow where
  id : String
  kind : InterproceduralFlowKind
  callerSummaryId : String
  calleeSummaryId : String
  callsiteId : String
  targetSymbolId : String
  targetCertainty : CallTargetCertainty
  certainty : DataFlowCertainty
  reason : String
  argumentIndex : Option Nat := none
  callerLocationId : Option String := none
  calleeLocationId : Option String := none
  callerAccessId : Option String := none
  translationUnitId : String := ""
  buildConfigurationId : String := ""
  buildVariant : String := "default"
  identified : [id, callerSummaryId, calleeSummaryId, callsiteId, targetSymbolId,
    reason, translationUnitId, buildConfigurationId, buildVariant].all
      (fun text => !isBlank text) = true
  deriving DecidableEq

end CppContextEngine.Models
