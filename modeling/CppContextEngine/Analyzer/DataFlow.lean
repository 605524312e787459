import Mathlib.Data.Finset.Sort
import Mathlib.Data.Finset.Image
import Mathlib.Data.List.Dedup
import Mathlib.Data.String.Basic
import CppContextEngine.Foundation.Sweep
import CppContextEngine.Foundation.Table
import CppContextEngine.Foundation.Text

/-!
# Intraprocedural data flow

The analyzer's pass over one function: which definitions reach a block and what
its pointers may point to, joined over the predecessors and carried through the
accesses of the block, in sweeps over the blocks in the order of their numbers.
-/

namespace CppContextEngine.Analyzer

open CppContextEngine.Foundation

/-- `kDataFlowMaxIterations` -/
def dataFlowMaxIterations : Nat := 64

/-- `kDataFlowMaxAliasTargets` -/
def dataFlowMaxAliasTargets : Nat := 64

/-! ## Accesses -/

/-- The kinds of `DataAccessRecord`. -/
inductive AccessKind where
  | parameterDefinition
  | initialization
  | assignment
  | compoundAssignment
  | increment
  | decrement
  | callReturn
  | unknownClobber
  | read
  | callArgument
  | returnValue
  | condition
  deriving DecidableEq, Repr

/-- `isDefinition` -/
def AccessKind.isDefinition : AccessKind → Bool
  | parameterDefinition | initialization | assignment | compoundAssignment | increment | decrement
  | callReturn | unknownClobber => true
  | read | callArgument | returnValue | condition => false

/-- The forms of `evaluatePointsTo`, without parentheses and implicit casts. -/
inductive PointerExpr where
  /-- A function, its address or a lambda's call operator. -/
  | function (key : String)
  /-- A variable's location, and whether its type is a pointer or a reference. -/
  | value (location : String) (tracked : Bool)
  /-- The address of a location. -/
  | addressOf (location : String)
  | conditional (whenTrue whenFalse : PointerExpr)
  /-- The member that a `.*` or `->*` selects. -/
  | memberPointer (member : PointerExpr)
  | null
  | other
  deriving DecidableEq, Repr

/-- `DataAccessRecord`; its key is its block and its place there. -/
structure Access where
  location : String
  kind : AccessKind
  assigned : Option PointerExpr := none
  pointsToComplete : Bool := true
  deriving DecidableEq, Repr

/-- The access that defines a location. -/
def Access.Defines (access : Access) (location : String) : Prop :=
  access.kind.isDefinition = true ∧ access.location = location

instance (access : Access) (location : String) : Decidable (access.Defines location) :=
  inferInstanceAs (Decidable (_ ∧ _))

/-- What `MemoryLocationRecord` says about a location. -/
structure Location where
  kind : String
  typeName : String
  tracksPointsTo : Bool
  deriving DecidableEq, Repr

/-- A variable that is bound to its referent once. -/
def Location.referenceHandle (location : Location) : Bool :=
  (location.kind = "local" ∨ location.kind = "parameter") ∧ '&' ∈ location.typeName.toList

/-- An access's key: its block and its sequence number. -/
abbrev AccessKey (β : Type) := β × Nat

/-- `IndirectCallRecord` -/
structure IndirectCall (β : Type) where
  block : β
  callee : Option PointerExpr
  sequence : Nat
  deriving DecidableEq

/-! ## Values -/

/-- `PointsToValue`; a function is represented by its declaration's key. -/
structure PointsToValue where
  functions : Finset String := ∅
  locations : Finset String := ∅
  complete : Bool := true
  includesNull : Bool := false
  deriving DecidableEq

/-- `DataFlowState` -/
structure DataFlowState (β : Type) where
  definitions : Table (Finset (AccessKey β)) := ∅
  definitionsComplete : Table Bool := ∅
  pointsTo : Table PointsToValue := ∅

/-- `state.definitions[location]` -/
def DataFlowState.definitionsOf {β : Type} (state : DataFlowState β) (location : String) :
    Finset (AccessKey β) :=
  (state.definitions[location]?).getD ∅

/-- `state.definitionsComplete[location]` -/
def DataFlowState.isComplete {β : Type} (state : DataFlowState β) (location : String) : Bool :=
  (state.definitionsComplete[location]?).getD false

instance {β : Type} [DecidableEq β] : DecidableEq (DataFlowState β) := fun first second =>
  decidable_of_iff (first.definitions = second.definitions ∧ first.definitionsComplete =
      second.definitionsComplete ∧ first.pointsTo = second.pointsTo) <| by
    cases first
    cases second
    simp

/-- A function body: its blocks in the order of their numbers, and what was collected about them. -/
structure FlowGraph (β : Type) where
  blocks : List β
  entry : β
  predecessors : β → List β
  accesses : β → List Access
  locations : Table Location
  calls : List (IndirectCall β)
  /-- Whether a function has a declaration inside the project. -/
  indexed : String → Bool
  navigationOnly : Bool := false
  nodup : blocks.Nodup
  entry_mem : entry ∈ blocks
  predecessors_mem : ∀ block, ∀ previous ∈ predecessors block, previous ∈ blocks
  /-- Nothing jumps to the entry block. -/
  entry_first : predecessors entry = []

/-- A graph from its edges, each from a predecessor to its successor. -/
def FlowGraph.ofEdges {β : Type} [DecidableEq β] (blocks : List β) (entry : β)
    (edges : List (β × β)) (accesses : β → List Access) (nodup : blocks.Nodup)
    (entry_mem : entry ∈ blocks) (edges_mem : ∀ edge ∈ edges, edge.1 ∈ blocks)
    (entry_first : ∀ edge ∈ edges, edge.2 ≠ entry) (locations : Table Location := ∅)
    (calls : List (IndirectCall β) := []) : FlowGraph β where
  blocks
  entry
  predecessors block := ((edges.filter fun edge => edge.2 = block).map Prod.fst).dedup
  accesses
  locations
  calls
  indexed _ := true
  nodup
  entry_mem
  predecessors_mem block previous h := by
    obtain ⟨edge, hedge, rfl⟩ := List.mem_map.mp (List.mem_dedup.mp h)
    exact edges_mem edge (List.mem_filter.mp hedge).1
  entry_first := by
    rw [List.filter_eq_nil_iff.mpr]
    · rfl
    · intro edge hedge
      simpa using entry_first edge hedge

/-! ## Points-to values -/

/-- The order of a `std::set`. -/
abbrev ascending (names : Finset String) : List String := names.sort (· ≤ ·)

def smallest (n : Nat) (names : Finset String) : Finset String :=
  ((ascending names).take n).toFinset

/-- `capPointsTo` -/
def capPointsTo (value : PointsToValue) : PointsToValue :=
  if value.functions.card + value.locations.card ≤ dataFlowMaxAliasTargets then value
  else
    let locations := smallest dataFlowMaxAliasTargets value.locations
    { value with
      complete := false
      locations
      functions := smallest (dataFlowMaxAliasTargets - locations.card) value.functions }

section Evaluate

variable {β : Type} [DecidableEq β] (graph : FlowGraph β)

/-- The value of an expression of unknown form. -/
def unknownValue : PointsToValue := { complete := false }

/-- `evaluatePointsTo` -/
def evaluatePointsTo (pointsTo : Table PointsToValue) : PointerExpr → PointsToValue
  | .function key => { functions := {key}, complete := graph.indexed key }
  | .value location tracked =>
      match pointsTo[location]? with
      | some value => value
      | none => if tracked then unknownValue else { locations := {location} }
  | .addressOf location => { locations := {location} }
  | .conditional whenTrue whenFalse =>
      let left := evaluatePointsTo pointsTo whenTrue
      let right := evaluatePointsTo pointsTo whenFalse
      capPointsTo
        { functions := left.functions ∪ right.functions
          locations := left.locations ∪ right.locations
          complete := left.complete && right.complete
          includesNull := left.includesNull || right.includesNull }
  | .memberPointer member => evaluatePointsTo pointsTo member
  | .null => { includesNull := true }
  | .other => unknownValue

/-- An expression that can be missing. -/
def evaluateOptional (pointsTo : Table PointsToValue) : Option PointerExpr → PointsToValue
  | some expression => evaluatePointsTo graph pointsTo expression
  | none => unknownValue

/-- Whether a definition binds the location's pointer anew. -/
def bindsPointer (access : Access) : Bool :=
  match graph.locations[access.location]? with
  | some location => location.tracksPointsTo && !(location.referenceHandle &&
      access.kind != .initialization && access.kind != .parameterDefinition &&
      access.kind != .unknownClobber)
  | none => false

/-- The value that a definition gives to its location. -/
def assignedValue (pointsTo : Table PointsToValue) (access : Access) : PointsToValue :=
  match access.assigned with
  | some expression => evaluatePointsTo graph pointsTo expression
  | none => { complete := access.pointsToComplete }

/-! ## Transfer -/

/-- One access of `transfer`. -/
def applyAccess (block : β) (state : DataFlowState β) (record : Access × Nat) : DataFlowState β :=
  let (access, sequence) := record
  if access.kind.isDefinition then
    { definitions :=
        if graph.navigationOnly then state.definitions
        else state.definitions.insert access.location {(block, sequence)}
      definitionsComplete :=
        if graph.navigationOnly then state.definitionsComplete
        else state.definitionsComplete.insert access.location true
      pointsTo :=
        if bindsPointer graph access then
          state.pointsTo.insert access.location (assignedValue graph state.pointsTo access)
        else state.pointsTo }
  else state

/-- The state before the access with the given sequence number. -/
def stateAt (block : β) (state : DataFlowState β) (sequence : Nat) : DataFlowState β :=
  ((graph.accesses block).zipIdx.take sequence).foldl (applyAccess graph block) state

/-- `transfer` -/
def transfer (block : β) (state : DataFlowState β) : DataFlowState β :=
  (graph.accesses block).zipIdx.foldl (applyAccess graph block) state

end Evaluate

section Congr

variable {β : Type} {first second : FlowGraph β}

/-- The value of an expression depends on the declarations of the project only. -/
theorem evaluatePointsTo_congr (h : first.indexed = second.indexed)
    (pointsTo : Table PointsToValue) (expression : PointerExpr) :
    evaluatePointsTo first pointsTo expression = evaluatePointsTo second pointsTo expression := by
  induction expression with
  | function key =>
      unfold evaluatePointsTo
      rw [h]
  | conditional whenTrue whenFalse ihTrue ihFalse =>
      simp only [evaluatePointsTo, ihTrue, ihFalse]
  | memberPointer member ih => exact ih
  | value | addressOf | null | other => rfl

theorem assignedValue_congr (h : first.indexed = second.indexed)
    (pointsTo : Table PointsToValue) (access : Access) :
    assignedValue first pointsTo access = assignedValue second pointsTo access := by
  unfold assignedValue
  simp only [evaluatePointsTo_congr h]

theorem bindsPointer_congr (h : first.locations = second.locations) (access : Access) :
    bindsPointer first access = bindsPointer second access := by
  unfold bindsPointer
  rw [h]

theorem applyAccess_congr (hindexed : first.indexed = second.indexed)
    (hlocations : first.locations = second.locations)
    (hprofile : first.navigationOnly = second.navigationOnly) (block : β) :
    applyAccess first block = applyAccess second block := by
  funext state record
  unfold applyAccess
  simp only [assignedValue_congr hindexed, bindsPointer_congr hlocations, hprofile]

end Congr

/-! ## Join -/

section Join

variable {β : Type} [DecidableEq β]

/-- A table with the given keys. -/
def tabulate {γ : Type} (keys : List String) (make : String → γ) : Table γ :=
  keys.foldl (fun table key => table.insert key (make key)) ∅

def joinDefinitions (states : List (DataFlowState β)) (location : String) :
    Finset (AccessKey β) :=
  states.foldl (fun joined state => joined ∪ state.definitionsOf location) ∅

/-- The value of a location that one of the predecessors adds. -/
def mergePointsTo (destination : PointsToValue) (found : Option PointsToValue) : PointsToValue :=
  match found with
  | none => { destination with complete := false }
  | some value =>
      { functions := destination.functions ∪ value.functions
        locations := destination.locations ∪ value.locations
        complete := destination.complete && value.complete
        includesNull := destination.includesNull || value.includesNull }

def joinPointsTo (states : List (DataFlowState β)) (location : String) : PointsToValue :=
  capPointsTo ((states.map fun state => state.pointsTo[location]?).foldl mergePointsTo {})

/-- `joinState`, given the predecessors that were processed and how many there are. -/
def joinStates (navigationOnly : Bool) (states : List (DataFlowState β)) (incoming : Nat) :
    DataFlowState β :=
  let defined := states.flatMap fun state => state.definitions.keys
  let known := defined ++ states.flatMap fun state => state.definitionsComplete.keys
  let complete (location : String) : Bool :=
    states.length = incoming ∧ ∀ state ∈ states, state.isComplete location = true
  let points := states.flatMap fun state => state.pointsTo.keys
  { definitions := if navigationOnly then ∅ else tabulate defined (joinDefinitions states)
    definitionsComplete := if navigationOnly then ∅ else tabulate known complete
    pointsTo := tabulate points (joinPointsTo states) }

end Join

/-! ## Sweeps -/

section Iterate

variable {β : Type} [DecidableEq β] (graph : FlowGraph β)

/-- A block's input and output. -/
abbrev BlockStates (β : Type) := DataFlowState β × DataFlowState β

/-- `joinState` -/
def joinState (values : Values β (BlockStates β)) (block : β) : DataFlowState β :=
  joinStates graph.navigationOnly
    ((graph.predecessors block).filterMap fun previous => (values previous).map Prod.snd)
    (graph.predecessors block).length

def blockStates (values : Values β (BlockStates β)) (block : β) : BlockStates β :=
  let input := joinState graph values block
  (input, transfer graph block input)

/-- `inputs` and `outputs` after the loop, and `converged`. -/
def iterate (cap : Nat) : Values β (BlockStates β) × Bool :=
  settle (blockStates graph) graph.blocks cap fun _ => none

/-- `inputs[key]` -/
def inputOf (values : Values β (BlockStates β)) (block : β) : DataFlowState β :=
  ((values block).map Prod.fst).getD {}

/-! ## Evidence -/

inductive Certainty where
  | certain
  | possible
  deriving DecidableEq, Repr

/-- Evidence between two accesses; `overwrites` if the target is a definition. -/
structure AccessEvidence (β : Type) where
  source : AccessKey β
  target : AccessKey β
  overwrites : Bool
  certainty : Certainty
  deriving DecidableEq

/-- What is emitted for one access with the state before it. -/
def accessEvidence (block : β) (state : DataFlowState β) (record : Access × Nat) :
    Finset (AccessEvidence β) :=
  let (access, sequence) := record
  let definitions := state.definitionsOf access.location
  let complete := state.isComplete access.location
  definitions.image fun source =>
    { source
      target := (block, sequence)
      overwrites := access.kind.isDefinition
      certainty := if complete ∧ definitions.card = 1 then .certain else .possible }

/-- A read whose definitions are incomplete is a reason for the analysis to be so. -/
def definitionsIncomplete (state : DataFlowState β) (access : Access) : Bool :=
  !access.kind.isDefinition && !state.isComplete access.location

/-- The pass over a block: its evidence, its reason and the values of its calls. -/
structure BlockPass (β : Type) where
  state : DataFlowState β
  calls : List (IndirectCall β)
  evidence : Finset (AccessEvidence β) := ∅
  incomplete : Bool := false
  values : List (IndirectCall β × PointsToValue) := []

variable {graph}

/-- Evaluate the calls that come before an access. -/
def BlockPass.evaluateCalls (graph : FlowGraph β) (pass : BlockPass β)
    (due : IndirectCall β → Bool) : BlockPass β :=
  { pass with
    calls := pass.calls.dropWhile due
    values := pass.values ++ (pass.calls.takeWhile due).map fun call =>
      (call, evaluateOptional graph pass.state.pointsTo call.callee) }

def BlockPass.step (graph : FlowGraph β) (block : β) (pass : BlockPass β) (record : Access × Nat) :
    BlockPass β :=
  let pass := pass.evaluateCalls graph fun call => call.sequence ≤ record.2
  { pass with
    state := applyAccess graph block pass.state record
    evidence :=
      if graph.navigationOnly then pass.evidence
      else pass.evidence ∪ accessEvidence block pass.state record
    incomplete := pass.incomplete ||
      (!graph.navigationOnly && definitionsIncomplete pass.state record.1) }

variable (graph)

/-- The pass over a block with its input. -/
def passBlock (block : β) (state : DataFlowState β) : BlockPass β :=
  let calls := (graph.calls.filter fun call => call.block = block).mergeSort
    fun first second => first.sequence ≤ second.sequence
  ((graph.accesses block).zipIdx.foldl (BlockPass.step graph block) { state, calls }).evaluateCalls
    graph fun _ => true

/-- All evidence of reaching and overwritten definitions. -/
def evidence (cap : Nat) (block : β) : Finset (AccessEvidence β) :=
  (passBlock graph block (inputOf (iterate graph cap).1 block)).evidence

/-- The reason `reaching_definition_incomplete`. -/
def reachingDefinitionIncomplete (cap : Nat) : Bool :=
  graph.blocks.any fun block =>
    (passBlock graph block (inputOf (iterate graph cap).1 block)).incomplete

/-- `callValues` -/
def callValues (cap : Nat) : List (IndirectCall β × PointsToValue) :=
  graph.blocks.flatMap fun block =>
    (passBlock graph block (inputOf (iterate graph cap).1 block)).values

end Iterate

end CppContextEngine.Analyzer
