import CppContextEngine.Analysis.Interprocedural

/-!
# Flows, publication and the run over all components

After a component is solved its members' flows are recorded and its summaries
are published to the emitter.  A streaming run then forgets the facts of every
summary whose last caller component is done.
-/

namespace CppContextEngine.Analysis

open CppContextEngine.Foundation CppContextEngine.Models

variable [Fingerprint]

/-! ## Flows -/

/-- `_flow`; the constructor rejects blank identifiers and provenance. -/
def flow (kind : InterproceduralFlowKind) (caller : FunctionSummary) (edge : CallEdge)
    (evidence : DataFlowCertainty) (reason : String)
    (argumentIndex : Option Nat := none) (callerLocationId : Option String := none)
    (calleeLocationId : Option String := none) (callerAccessId : Option String := none) :
    Except SolverError InterproceduralFlow :=
  let id := makeId "interprocedural_flow"
    [.text (StrEnum.value kind), .text caller.id, .text edge.callee.id, .text edge.site.id,
      .text edge.target.targetSymbolId, .index argumentIndex, .optional callerLocationId,
      .optional calleeLocationId, .optional callerAccessId]
  if h : [id, caller.id, edge.callee.id, edge.site.id, edge.target.targetSymbolId, reason,
      edge.site.translationUnitId, edge.site.buildConfigurationId,
      edge.site.buildVariant].all (fun text => !isBlank text) = true then
    .ok
      { id := id
        kind := kind
        callerSummaryId := caller.id
        calleeSummaryId := edge.callee.id
        callsiteId := edge.site.id
        targetSymbolId := edge.target.targetSymbolId
        targetCertainty := edge.target.certainty
        certainty := certainty edge.target.certainty evidence
        reason := reason
        argumentIndex := argumentIndex
        callerLocationId := callerLocationId
        calleeLocationId := calleeLocationId
        callerAccessId := callerAccessId
        translationUnitId := edge.site.translationUnitId
        buildConfigurationId := edge.site.buildConfigurationId
        buildVariant := edge.site.buildVariant
        identified := h }
  else .error .valueError

namespace Problem

variable (p : Problem)

/-- The flow of one argument into the parameter at `calleeLocation`. -/
def argumentFlow (caller : FunctionSummary) (edge : CallEdge) (calleeLocation : String)
    (index : Nat) : Except SolverError (Option InterproceduralFlow) :=
  match p.binding? caller edge.site index with
  | none => .ok none
  | some binding => do
      let recorded ← flow .argumentToParameter caller edge
        (if binding.complete && !edge.bodyAmbiguous then .certain else .possible)
        "caller argument is bound to this concrete callee parameter"
        (some index) binding.locationId (some calleeLocation)
      return some recorded

/-- The effects that may write caller storage, the last one of each location. -/
def writebacks (current : Environment) (caller : FunctionSummary) (edge : CallEdge) :
    Except SolverError
      (List ((Nat × Option String) × SummaryEffect × CallArgumentBinding)) :=
  (current.effects edge.callee.id).foldlM (fun winners effect =>
    match effect.kind, effect.parameterIndex with
    | .write, some index =>
        match edge.callee.parameterModes[index]? with
        | none => .error .indexError
        | some mode =>
            if mode ∈ ["reference", "pointer", "rvalue_reference"] then
              match p.binding? caller edge.site index with
              | none => .ok winners
              | some binding =>
                  if binding.writebackCandidate then
                    .ok (upsert winners (index, effect.locationId) (effect, binding))
                  else .ok winners
            else .ok winners
    | _, _ => .ok winners) []

def writebackFlow (caller : FunctionSummary) (edge : CallEdge) (index : Nat)
    (effect : SummaryEffect) (binding : CallArgumentBinding) :
    Except SolverError InterproceduralFlow :=
  flow .writeback caller edge
    (if binding.complete && !edge.bodyAmbiguous then effect.certainty else .possible)
    "callee parameter side effect may write caller storage"
    (some index) binding.locationId effect.locationId

def returnFlow (caller : FunctionSummary) (edge : CallEdge) (result : CallResultBinding)
    (origin : SummaryReturnOrigin) : Except SolverError InterproceduralFlow :=
  flow .returnToCaller caller edge
    (evidenceCertainty edge.bodyAmbiguous origin.certainty)
    "callee return origin reaches the caller's call-result definition"
    none (some result.locationId) origin.locationId (some result.definitionAccessId)

/-- The last origin of each location, in order of first appearance. -/
def returnLocations (current : Environment) (edge : CallEdge) : List SummaryReturnOrigin :=
  ((current.origins edge.callee.id).foldl (fun locations origin =>
    upsert locations origin.locationId origin) []).map Prod.snd

def edgeFlows (current : Environment) (caller : FunctionSummary) (edge : CallEdge) :
    Except SolverError (List InterproceduralFlow) := do
  let arguments ← edge.callee.parameterLocationIds.zipIdx.mapM fun (location, index) =>
    p.argumentFlow caller edge location index
  let winners ← p.writebacks current caller edge
  let written ← winners.mapM fun ((index, _), effect, binding) =>
    writebackFlow caller edge index effect binding
  let returned ← match p.result? caller edge.site with
    | none => .ok []
    | some result => (returnLocations current edge).mapM (returnFlow caller edge result)
  return arguments.reduceOption ++ written ++ returned

/-- The flows that `record_flows` writes for one caller, in order. -/
def callerFlows (current : Environment) (caller : FunctionSummary) :
    Except SolverError (List InterproceduralFlow) :=
  List.flatten <$> (p.callEdges caller.id).mapM (p.edgeFlows current caller)

/-! ## Publication -/

/-- `_solution_hash` -/
def solutionHash (facts : Facts) : String :=
  makeId "solution"
    [.pairs (facts.effects.map fun item => (item.id, StrEnum.value item.certainty)),
      .pairs (facts.origins.map fun item => (item.id, StrEnum.value item.certainty)),
      .texts facts.reasons.sorted]

def solvedSummary (summary : FunctionSummary) (facts : Facts) (iterationCount : Nat) :
    FunctionSummary :=
  { summary with
    complete := facts.reasons.sorted.isEmpty
    incompleteReasons := facts.reasons.sorted
    recursive := p.isRecursive summary.id
    iterationCount := iterationCount
    maxSccIterations := p.limits.maxSccIterations
    maxSccSize := p.limits.maxSccSize
    maxSummaryEffects := p.limits.maxSummaryEffects
    solutionHash := solutionHash facts
    limitsPositive := p.limits.positive
    reasonsNormalized := facts.reasons.sorted_normalized
    agrees := rfl }

/-- `emit_summary`, with the state of its owner made explicit. -/
abbrev Emitter (σ : Type) :=
  σ → FunctionSummary → List SummaryEffect → List SummaryReturnOrigin → Except SolverError σ

/-- The facts that are still held, and how many callers have yet to read each of them. -/
structure Held where
  current : Environment
  remainingCallers : String → Int

/-- The variables of the loop over the components. -/
structure Run (σ : Type) where
  held : Held
  flows : Table InterproceduralFlow
  summaries : List FunctionSummary
  owner : σ

variable {σ : Type}

/-- Record the flows of one solved member and publish it. -/
def publish (emit : Emitter σ) (iterationCount : Nat) (run : Run σ)
    (summary : FunctionSummary) : Except SolverError (Run σ) := do
  let flows ← p.callerFlows run.held.current summary
  match run.held.current[summary.id]? with
  | none => throw .keyError
  | some facts =>
      let solved := p.solvedSummary summary facts iterationCount
      let owner ← emit run.owner solved facts.effects facts.origins
      return { run with
        flows := run.flows.put InterproceduralFlow.id flows
        summaries := run.summaries ++ [solved]
        owner := owner }

/-! ## Eviction -/

/-- `component_by_member` -/
def componentIndex (id : String) : Nat :=
  p.components.findIdx fun component => id ∈ component

/-- The cross-component callees of one caller. -/
def outerCallees (caller : String) : List String :=
  (p.adjacency caller).toList.filter fun callee =>
    p.componentIndex caller ≠ p.componentIndex callee

def remainingCallers : String → Int :=
  (p.summaryIds.flatMap p.outerCallees).foldl
    (fun counts callee => Function.update counts callee (counts callee + 1)) fun _ => 0

/-- One finished caller lets go of `callee`. -/
def releaseCallee (held : Held) (callee : String) : Held :=
  let count := held.remainingCallers callee - 1
  { remainingCallers := Function.update held.remainingCallers callee count
    current := if count = 0 then held.current.erase callee else held.current }

def releaseMember (held : Held) (member : String) : Held :=
  if held.remainingCallers member = 0 then { held with current := held.current.erase member }
  else held

def evict (component : List String) (held : Held) : Held :=
  let callees := (p.members component).flatMap fun caller => p.outerCallees caller.id
  component.foldl releaseMember (callees.foldl releaseCallee held)

/-! ## The whole run -/

def solveComponent (emit : Emitter σ) (retain : Bool) (run : Run σ) (component : List String) :
    Except SolverError (Run σ) := do
  let members := p.members component
  let (current, iterationCount) := p.solveMembers members run.held.current
  let run ← members.foldlM (p.publish emit iterationCount)
    { run with held := { run.held with current := current } }
  return if retain then run else { run with held := p.evict component run.held }

def initialRun (owner : σ) : Run σ where
  held := ⟨p.initialEnvironment, p.remainingCallers⟩
  flows := ∅
  summaries := []
  owner := owner

/-- `_solve_variant` -/
def solveVariant (emit : Emitter σ) (retain : Bool) (owner : σ) :
    Except SolverError (InterproceduralSolution × σ) := do
  let run ← p.components.foldlM (p.solveComponent emit retain) (p.initialRun owner)
  return (
    { summaries := run.summaries.insertionSort fun item other => item.id ≤ other.id
      effects := if retain then run.held.current.items.flatMap Facts.effects else []
      returnOrigins := if retain then run.held.current.items.flatMap Facts.origins else []
      flows := run.flows.items }, run.owner)

/-! ## Build variants -/

/-- The part of the arguments that belongs to one build variant. -/
def restrictTo (variant : String) : Problem :=
  { p with
    summaries := p.summaries.filter fun item => item.buildVariant = variant
    localEffects := p.localEffects.filter fun item => item.buildVariant = variant
    localOrigins := p.localOrigins.filter fun item => item.buildVariant = variant
    bindings := p.bindings.filter fun item => item.buildVariant = variant
    resultBindings := p.resultBindings.filter fun item => item.buildVariant = variant
    callsites := p.callsites.filter fun item => item.buildVariant = variant
    targets := p.targets.filter fun item => item.buildVariant = variant }

def variants : List String :=
  (Std.ExtTreeSet.ofList (p.summaries.map FunctionSummary.buildVariant) : Names).toList

def solveNext (emit : Emitter σ) (retain : Bool) (state : InterproceduralSolution × σ)
    (variant : String) : Except SolverError (InterproceduralSolution × σ) := do
  let (solved, owner) := state
  let (solution, owner) ← (p.restrictTo variant).solveVariant emit retain owner
  return (solved.append solution, owner)

/-- `solve_interprocedural` -/
def solveInterprocedural (emit : Emitter σ) (retain : Bool) (owner : σ) :
    Except SolverError (InterproceduralSolution × σ) := do
  let (solved, owner) ← p.variants.foldlM (p.solveNext emit retain) (⟨[], [], [], []⟩, owner)
  return (
    { summaries := solved.summaries.insertionSort fun item other => item.id ≤ other.id
      effects := solved.effects.insertionSort fun item other => item.id ≤ other.id
      returnOrigins := solved.returnOrigins.insertionSort fun item other => item.id ≤ other.id
      flows := solved.flows.insertionSort fun item other => item.id ≤ other.id }, owner)

end Problem

end CppContextEngine.Analysis
