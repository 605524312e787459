import CppContextEngine.Foundation.Table
import CppContextEngine.Foundation.Tarjan
import CppContextEngine.Models.Summaries

/-!
# Interprocedural summary propagation

`_solve_variant` and `solve_interprocedural`: components of the call graph are
solved callees first, a recursive component by simultaneous updates up to an
iteration limit.  The hash behind the fact identifiers is a parameter.
-/

namespace CppContextEngine.Analysis

open CppContextEngine.Foundation CppContextEngine.Models

/-! ## Arguments and results -/

structure InterproceduralLimits where
  maxSccIterations : Nat := 32
  maxSccSize : Nat := 128
  maxSummaryEffects : Nat := 1024
  positive : 0 < maxSccIterations ∧ 0 < maxSccSize ∧ 0 < maxSummaryEffects := by decide

/-- The defaults. -/
def InterproceduralLimits.standard : InterproceduralLimits := {}

structure InterproceduralSolution where
  summaries : List FunctionSummary
  effects : List SummaryEffect
  returnOrigins : List SummaryReturnOrigin
  flows : List InterproceduralFlow

def InterproceduralSolution.append (solved solution : InterproceduralSolution) :
    InterproceduralSolution where
  summaries := solved.summaries ++ solution.summaries
  effects := solved.effects ++ solution.effects
  returnOrigins := solved.returnOrigins ++ solution.returnOrigins
  flows := solved.flows ++ solution.flows

/-- The exceptions that end a solve. -/
inductive SolverError where
  | keyError
  | indexError
  | valueError
  deriving DecidableEq, Repr

/-- The arguments of one solve. -/
structure Problem where
  summaries : List FunctionSummary
  localEffects : List SummaryEffect
  localOrigins : List SummaryReturnOrigin
  bindings : List CallArgumentBinding
  resultBindings : List CallResultBinding
  callsites : List SummaryCallSiteProjection
  targets : List SummaryCallTargetProjection
  limits : InterproceduralLimits

/-! ## Identifiers -/

/-- A value that takes part in a fingerprint. -/
inductive IdValue where
  | text (value : String)
  | optional (value : Option String)
  | index (value : Option Nat)
  | texts (values : List String)
  | pairs (values : List (String × String))
  deriving DecidableEq

/-- The SHA-256 digest of the NUL-delimited values, cut to 32 hex digits. -/
class Fingerprint where
  digest : List IdValue → String

/-- `_id` -/
def makeId [Fingerprint] (idPrefix : String) (values : List IdValue) : String :=
  idPrefix ++ "_" ++ Fingerprint.digest values

/-- `_certainty` -/
def certainty : CallTargetCertainty → DataFlowCertainty → DataFlowCertainty
  | .certain, .certain => .certain
  | _, _ => .possible

/-- The certainty of callee evidence read through a possibly ambiguous body. -/
def evidenceCertainty (bodyAmbiguous : Bool) (evidence : DataFlowCertainty) :
    DataFlowCertainty :=
  if bodyAmbiguous then .possible else evidence

/-! ## Incompleteness reasons -/

inductive IncompleteReason where
  | sccSizeCapExceeded
  | unknownOrExternalCallTarget
  | externalOrUnindexedCalleeBody
  | multipleCalleeBodyVariants
  | missingCallArgumentBinding
  | incompleteCallArgumentBinding
  | calleeSummaryIncomplete
  | summaryEffectCapExceeded
  | sccIterationCapExceeded
  deriving DecidableEq, Repr

def IncompleteReason.text : IncompleteReason → String
  | sccSizeCapExceeded => "scc_size_cap_exceeded"
  | unknownOrExternalCallTarget => "unknown_or_external_call_target"
  | externalOrUnindexedCalleeBody => "external_or_unindexed_callee_body"
  | multipleCalleeBodyVariants => "multiple_callee_body_variants"
  | missingCallArgumentBinding => "missing_call_argument_binding"
  | incompleteCallArgumentBinding => "incomplete_call_argument_binding"
  | calleeSummaryIncomplete => "callee_summary_incomplete"
  | summaryEffectCapExceeded => "summary_effect_cap_exceeded"
  | sccIterationCapExceeded => "scc_iteration_cap_exceeded"

/-- A set of reasons, none of them empty. -/
structure Reasons where
  texts : Names
  named : "" ∉ texts
  deriving DecidableEq

namespace Reasons

theorem ext_mem {r r' : Reasons} (h : ∀ text, text ∈ r.texts ↔ text ∈ r'.texts) : r = r' := by
  cases r
  cases r'
  simp only [mk.injEq]
  exact Std.ExtTreeSet.ext_mem fun {text} => h text

def ofLocal (summary : FunctionSummary) : Reasons where
  texts := Std.ExtTreeSet.ofList summary.localIncompleteReasons
  named := by simpa using summary.localReasonsNormalized.2

def note (reasons : Reasons) (reason : IncompleteReason) : Reasons where
  texts := reasons.texts.insert reason.text
  named := by
    rw [Std.ExtTreeSet.mem_insert, not_or]
    exact ⟨by cases reason <;> decide, reasons.named⟩

def noteIf (reasons : Reasons) (condition : Prop) [Decidable condition]
    (reason : IncompleteReason) : Reasons :=
  if condition then reasons.note reason else reasons

/-- `tuple(sorted(reasons))` -/
def sorted (reasons : Reasons) : List String := reasons.texts.toList

theorem sorted_normalized (reasons : Reasons) : NormalizedReasons reasons.sorted := by
  constructor
  · refine reasons.texts.ordered_toList.imp ?_
    rintro a b hlt rfl
    exact absurd (compare_lt_iff_lt.mp hlt) (lt_irrefl _)
  · simpa [sorted] using reasons.named

end Reasons

/-! ## Propagated facts -/

variable [Fingerprint]

/-- The bindings of `bindings_by_pair`. -/
def Problem.binding? (p : Problem) (caller : FunctionSummary)
    (site : SummaryCallSiteProjection) (index : Nat) : Option CallArgumentBinding :=
  lastBy (fun item : CallArgumentBinding =>
    (item.callerSummaryId, item.callsiteId, item.argumentIndex)) (caller.id, site.id, index)
    p.bindings

def Problem.result? (p : Problem) (caller : FunctionSummary)
    (site : SummaryCallSiteProjection) : Option CallResultBinding :=
  lastBy (fun item : CallResultBinding => (item.callerSummaryId, item.callsiteId))
    (caller.id, site.id) p.resultBindings

/-- Where a fact of a callee lies, seen from one of its summaries. -/
structure Place (κ : Type) where
  locationKind : κ
  parameterIndex : Option Nat
  accessPath : List String
  locationId : Option String
  deriving DecidableEq

def effectReason : String :=
  "callee effect propagated through compiler-resolved call target"

def originReason : String :=
  "callee return origin propagated through compiler-resolved call target"

/-- The location of a callee effect in terms of the caller; `none` drops it. -/
def Problem.effectPlace (p : Problem) (caller : FunctionSummary)
    (site : SummaryCallSiteProjection) (effect : SummaryEffect) :
    Option (Place MemoryLocationKind) :=
  match effect.parameterIndex with
  | some index =>
      match p.binding? caller site index with
      | none => none
      | some binding =>
          some
            { locationKind := binding.locationKind
              parameterIndex := binding.parameterIndex
              accessPath := (binding.accessPath ++ effect.accessPath).take 8
              locationId := binding.locationId }
  | none =>
      if effect.locationKind = .global ∨ effect.locationKind = .field then
        some
          { locationKind := effect.locationKind
            parameterIndex := none
            accessPath := effect.accessPath
            locationId := effect.locationId }
      else none

def effectId (caller : FunctionSummary) (site : SummaryCallSiteProjection)
    (target : SummaryCallTargetProjection) (effect : SummaryEffect)
    (place : Place MemoryLocationKind) : String :=
  makeId "summary_effect"
    [.text caller.id, .text (StrEnum.value effect.kind),
      .text (StrEnum.value place.locationKind), .index place.parameterIndex,
      .texts place.accessPath, .text site.id, .text target.targetSymbolId,
      .optional effect.sourceAccessId]

/-- The propagated row of a callee's effect at `place`. -/
def effectRow (caller : FunctionSummary) (site : SummaryCallSiteProjection)
    (target : SummaryCallTargetProjection) (effect : SummaryEffect)
    (place : Place MemoryLocationKind) (certainty : DataFlowCertainty) : SummaryEffect where
  id := effectId caller site target effect place
  summaryId := caller.id
  kind := effect.kind
  locationKind := place.locationKind
  certainty := certainty
  reason := effectReason
  parameterIndex := place.parameterIndex
  accessPath := place.accessPath
  locationId := place.locationId
  sourceAccessId := effect.sourceAccessId
  isLocal := false
  viaCallsiteId := some site.id
  targetSymbolId := some target.targetSymbolId
  translationUnitId := site.translationUnitId
  buildConfigurationId := site.buildConfigurationId
  buildVariant := site.buildVariant
  identified := ⟨not_blank_append_left _ (by decide), caller.identified.1, by decide⟩
  provenance := fun _ => ⟨given_some site.identified.1, given_some target.identified.2.2⟩

/-- `_propagate_effect` -/
def Problem.propagateEffect (p : Problem) (caller : FunctionSummary)
    (site : SummaryCallSiteProjection) (target : SummaryCallTargetProjection)
    (effect : SummaryEffect) (bodyAmbiguous : Bool) : Option SummaryEffect :=
  (p.effectPlace caller site effect).map fun place =>
    effectRow caller site target effect place
      (certainty target.certainty (evidenceCertainty bodyAmbiguous effect.certainty))

/-- The location of a callee return origin in terms of the caller. -/
def Problem.originPlace (p : Problem) (caller : FunctionSummary)
    (site : SummaryCallSiteProjection) (origin : SummaryReturnOrigin) :
    Place (Option MemoryLocationKind) :=
  match origin.parameterIndex with
  | some index =>
      match p.binding? caller site index with
      | none =>
          { locationKind := some .unknown
            parameterIndex := none
            accessPath := []
            locationId := none }
      | some binding =>
          { locationKind := some binding.locationKind
            parameterIndex := binding.parameterIndex
            accessPath := (binding.accessPath ++ origin.accessPath).take 8
            locationId := binding.locationId }
  | none =>
      { locationKind := origin.locationKind
        parameterIndex := none
        accessPath := origin.accessPath
        locationId := origin.locationId }

def originId (caller : FunctionSummary) (site : SummaryCallSiteProjection)
    (target : SummaryCallTargetProjection) (place : Place (Option MemoryLocationKind)) :
    String :=
  makeId "summary_return"
    [.text caller.id, .text site.id, .text target.targetSymbolId,
      .optional (place.locationKind.map StrEnum.value), .index place.parameterIndex,
      .texts place.accessPath, .optional place.locationId]

/-- The propagated row of an origin at `place`. -/
def originRow (caller : FunctionSummary) (site : SummaryCallSiteProjection)
    (target : SummaryCallTargetProjection) (place : Place (Option MemoryLocationKind))
    (certainty : DataFlowCertainty) : SummaryReturnOrigin where
  id := originId caller site target place
  summaryId := caller.id
  kind := if place.locationKind.isSome then .location else .unknown
  certainty := certainty
  reason := originReason
  locationKind := place.locationKind
  parameterIndex := place.parameterIndex
  accessPath := place.accessPath
  locationId := place.locationId
  isLocal := false
  viaCallsiteId := some site.id
  targetSymbolId := some target.targetSymbolId
  translationUnitId := site.translationUnitId
  buildConfigurationId := site.buildConfigurationId
  buildVariant := site.buildVariant
  identified := ⟨not_blank_append_left _ (by decide), caller.identified.1, by decide⟩
  callResult := by split <;> simp
  provenance := fun _ => ⟨given_some site.identified.1, given_some target.identified.2.2⟩

/-- `_propagate_origin` -/
def Problem.propagateOrigin (p : Problem) (caller : FunctionSummary)
    (site : SummaryCallSiteProjection) (target : SummaryCallTargetProjection)
    (origin : SummaryReturnOrigin) (bodyAmbiguous : Bool) : SummaryReturnOrigin :=
  originRow caller site target (p.originPlace caller site origin)
    (certainty target.certainty (evidenceCertainty bodyAmbiguous origin.certainty))

/-! ## The call graph -/

/-- One resolved call: a callsite, a target and a body selected for it. -/
structure CallEdge where
  site : SummaryCallSiteProjection
  target : SummaryCallTargetProjection
  callee : FunctionSummary
  bodyAmbiguous : Bool

namespace Problem

variable (p : Problem)

def summaryById (id : String) : Option FunctionSummary :=
  lastBy FunctionSummary.id id p.summaries

/-- The bodies of one function, sorted by identifier. -/
def bodiesOf (functionSymbolId : String) : List FunctionSummary :=
  (p.summaries.filter fun item => item.functionSymbolId = functionSymbolId).insertionSort
    fun item other => item.id ≤ other.id

/--
One canonical symbol can have different bodies in several translation units:
only the callsites of this very body count.
-/
def ownerSites (caller : FunctionSummary) : List SummaryCallSiteProjection :=
  p.callsites.filter fun site =>
    site.ownerSymbolId = caller.functionSymbolId ∧
      site.translationUnitId = caller.translationUnitId ∧
      site.buildConfigurationId = caller.buildConfigurationId

def siteTargets (site : SummaryCallSiteProjection) : List SummaryCallTargetProjection :=
  p.targets.filter fun target => target.callsiteId = site.id

/-- The bodies a target may run, those of the caller's own unit first. -/
def calleeBodies (caller : FunctionSummary) (target : SummaryCallTargetProjection) :
    List FunctionSummary × Bool :=
  let candidates := p.bodiesOf target.targetSymbolId
  let sameTu := candidates.filter fun item =>
    item.translationUnitId = caller.translationUnitId ∧
      item.buildConfigurationId = caller.buildConfigurationId
  let selected := if sameTu.isEmpty then candidates else sameTu
  (selected, decide (1 < selected.length))

def targetEdges (caller : FunctionSummary) (site : SummaryCallSiteProjection)
    (target : SummaryCallTargetProjection) : List CallEdge :=
  let (callees, bodyAmbiguous) := p.calleeBodies caller target
  callees.map fun callee => ⟨site, target, callee, bodyAmbiguous⟩

def siteEdges (caller : FunctionSummary) (site : SummaryCallSiteProjection) : List CallEdge :=
  (p.siteTargets site).flatMap (p.targetEdges caller site)

/-- The resolved calls of one body in the order of its callsites. -/
def callerEdges (caller : FunctionSummary) : List CallEdge :=
  (p.ownerSites caller).flatMap (p.siteEdges caller)

/-- `call_edges[id]`, which collects over every summary of that identifier. -/
def callEdges (id : String) : List CallEdge :=
  (p.summaries.filter fun caller => caller.id = id).flatMap p.callerEdges

/-- `adjacency[id]` -/
def adjacency (id : String) : Names :=
  Std.ExtTreeSet.ofList ((p.callEdges id).map fun edge => edge.callee.id)

/-- The keys of `summary_by_id`. -/
def summaryIds : List String := (p.summaries.map FunctionSummary.id).dedup

def components : List (List String) :=
  Tarjan.components p.summaryIds fun id => (p.adjacency id).toList

/-- Membership in `recursive_ids`. -/
def isRecursive (id : String) : Bool :=
  (p.components.any fun component => decide (1 < component.length) && decide (id ∈ component)) ||
    decide (id ∈ p.summaryIds ∧ id ∈ p.adjacency id)

/-- Membership in `oversized_ids`. -/
def isOversized (id : String) : Bool :=
  p.components.any fun component =>
    decide (p.limits.maxSccSize < component.length) && decide (id ∈ component)

/-! ## Transfer -/

def localEffectsOf (id : String) : List SummaryEffect :=
  (p.localEffects.filter fun effect => effect.summaryId = id).insertionSort
    fun item other => item.id ≤ other.id

def localOriginsOf (id : String) : List SummaryReturnOrigin :=
  (p.localOrigins.filter fun origin => origin.summaryId = id).insertionSort
    fun item other => item.id ≤ other.id

end Problem

/-- What is known of one summary: its current effects, origins and reasons. -/
@[ext] structure Facts where
  effects : List SummaryEffect
  origins : List SummaryReturnOrigin
  reasons : Reasons
  deriving DecidableEq

/-- `current_effects`, `current_origins` and `current_reasons`, whose keys agree. -/
abbrev Environment := Table Facts

namespace Environment

def effects (current : Environment) (id : String) : List SummaryEffect :=
  (current[id]?.map Facts.effects).getD []

def origins (current : Environment) (id : String) : List SummaryReturnOrigin :=
  (current[id]?.map Facts.origins).getD []

/-- `bool(current_reasons.get(id))` -/
def incomplete (current : Environment) (id : String) : Bool :=
  (current[id]?.map fun facts => !facts.reasons.texts.isEmpty).getD false

end Environment

/-- The local variables of one transfer. -/
structure Draft where
  reasons : Reasons
  effects : Table SummaryEffect
  origins : Table SummaryReturnOrigin

namespace Problem

variable (p : Problem)

def bindingReasons (caller : FunctionSummary) (edge : CallEdge) (reasons : Reasons) : Reasons :=
  (List.range edge.callee.parameterLocationIds.length).foldl (fun reasons index =>
    match p.binding? caller edge.site index with
    | none => reasons.note .missingCallArgumentBinding
    | some binding =>
        if binding.complete then reasons else reasons.note .incompleteCallArgumentBinding)
    reasons

def edgeEffects (current : Environment) (caller : FunctionSummary) (edge : CallEdge) :
    List SummaryEffect :=
  (current.effects edge.callee.id).filterMap fun effect =>
    p.propagateEffect caller edge.site edge.target effect edge.bodyAmbiguous

def edgeOrigins (current : Environment) (caller : FunctionSummary) (edge : CallEdge) :
    List SummaryReturnOrigin :=
  (current.origins edge.callee.id).map fun origin =>
    p.propagateOrigin caller edge.site edge.target origin edge.bodyAmbiguous

/-- A return origin that asks for the origins of the callees at `site`. -/
def marks (site : SummaryCallSiteProjection) (origin : SummaryReturnOrigin) : Bool :=
  decide (origin.kind = .callResult ∧ origin.callsiteId = some site.id)

def transferCallee (current : Environment) (caller : FunctionSummary) (draft : Draft)
    (edge : CallEdge) : Draft where
  reasons := (p.bindingReasons caller edge draft.reasons).noteIf
    (current.incomplete edge.callee.id) .calleeSummaryIncomplete
  effects := draft.effects.put SummaryEffect.id (p.edgeEffects current caller edge)
  origins :=
    if draft.origins.items.any (marks edge.site) then
      draft.origins.put SummaryReturnOrigin.id (p.edgeOrigins current caller edge)
    else draft.origins

def transferTarget (current : Environment) (caller : FunctionSummary)
    (site : SummaryCallSiteProjection) (draft : Draft) (target : SummaryCallTargetProjection) :
    Draft :=
  let (callees, bodyAmbiguous) := p.calleeBodies caller target
  let reasons := draft.reasons.noteIf (callees = []) .externalOrUnindexedCalleeBody
  let reasons := reasons.noteIf (callees = []) .unknownOrExternalCallTarget
  let reasons := reasons.noteIf bodyAmbiguous .multipleCalleeBodyVariants
  (p.targetEdges caller site target).foldl (p.transferCallee current caller)
    { draft with reasons := reasons }

def transferSite (current : Environment) (caller : FunctionSummary) (draft : Draft)
    (site : SummaryCallSiteProjection) : Draft :=
  let siteTargets := p.siteTargets site
  let reasons := draft.reasons.noteIf (site.targetSetComplete = false ∨ siteTargets = [])
    .unknownOrExternalCallTarget
  siteTargets.foldl (p.transferTarget current caller site) { draft with reasons := reasons }

def initialDraft (caller : FunctionSummary) : Draft where
  reasons := (Reasons.ofLocal caller).noteIf (p.isOversized caller.id) .sccSizeCapExceeded
  effects := Table.put SummaryEffect.id ∅ (p.localEffectsOf caller.id)
  origins := Table.put SummaryReturnOrigin.id ∅ (p.localOriginsOf caller.id)

def transferDraft (current : Environment) (caller : FunctionSummary) : Draft :=
  (p.ownerSites caller).foldl (p.transferSite current caller) (p.initialDraft caller)

/-- `transfer` -/
def transfer (current : Environment) (caller : FunctionSummary) : Facts :=
  let draft := p.transferDraft current caller
  let orderedEffects := draft.effects.items
  { effects := orderedEffects.take p.limits.maxSummaryEffects
    origins := draft.origins.items
    reasons := draft.reasons.noteIf (p.limits.maxSummaryEffects < orderedEffects.length)
      .summaryEffectCapExceeded }

/-! ## Components -/

def initialEnvironment : Environment :=
  p.summaries.foldl (fun current summary => current.insert summary.id
    { effects := p.localEffectsOf summary.id
      origins := p.localOriginsOf summary.id
      reasons := Reasons.ofLocal summary }) ∅

/-- `members` of a component: `summary_by_id[id]` for each of its identifiers. -/
def members (component : List String) : List FunctionSummary :=
  component.filterMap p.summaryById

/-- One simultaneous round: every member is transferred from the same environment. -/
def round (members : List FunctionSummary) (current : Environment) : Environment :=
  members.foldl (fun next caller => next.insert caller.id (p.transfer current caller)) current

/-- The round would change nothing. -/
def settled (members : List FunctionSummary) (current : Environment) : Bool :=
  members.all fun caller => current[caller.id]? = some (p.transfer current caller)

/-- The iteration: the environment it ends in, its count, and whether it converged. -/
def iterate (members : List FunctionSummary) : Nat → Nat → Environment → Environment × Nat × Bool
  | 0, count, current => (current, count, false)
  | limit + 1, count, current =>
      if p.settled members current then (p.round members current, count + 1, true)
      else iterate members limit (count + 1) (p.round members current)

def noteIterationCap (current : Environment) (caller : FunctionSummary) : Environment :=
  match current[caller.id]? with
  | none => current
  | some facts =>
      current.insert caller.id { facts with reasons := facts.reasons.note .sccIterationCapExceeded }

/-- A non-recursive singleton cannot change after its first transfer. -/
def solveSingle (caller : FunctionSummary) (current : Environment) : Environment × Nat :=
  let next := p.transfer current caller
  let changed : Prop := current[caller.id]? ≠ some next
  let reasons := next.reasons.noteIf (changed ∧ p.limits.maxSccIterations = 1)
    .sccIterationCapExceeded
  (current.insert caller.id { next with reasons := reasons },
    if changed ∧ 1 < p.limits.maxSccIterations then 2 else 1)

def oversizedMembers (members : List FunctionSummary) : Bool :=
  members.any fun item => p.isOversized item.id

def iterationLimit (members : List FunctionSummary) : Nat :=
  if p.oversizedMembers members then 1 else p.limits.maxSccIterations

def solveCycle (members : List FunctionSummary) (current : Environment) : Environment × Nat :=
  let (next, count, converged) := p.iterate members (p.iterationLimit members) 0 current
  if converged || p.oversizedMembers members then (next, count)
  else (members.foldl noteIterationCap next, count)

/-- The new facts of a component's members and their iteration count. -/
def solveMembers (members : List FunctionSummary) (current : Environment) : Environment × Nat :=
  match members with
  | [caller] =>
      if caller.id ∈ p.adjacency caller.id then p.solveCycle members current
      else p.solveSingle caller current
  | members => p.solveCycle members current

end Problem

end CppContextEngine.Analysis
