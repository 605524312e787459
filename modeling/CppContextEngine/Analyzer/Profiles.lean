import CppContextEngine.Analyzer.Locations
import CppContextEngine.Analyzer.PathValues

/-!
# Navigation and full profile

A navigation run keeps no definitions, so it compares smaller states and may
stop earlier.  What pointers point to evolves by itself: both profiles hand the
same facts about calls to the sink, whatever the cap, and the locations that
the evaluation names are the same.
-/

namespace CppContextEngine.Analyzer

open CppContextEngine.Foundation

/-! ## Forgetting the definitions -/

section Forget

variable {β : Type} {graph : FlowGraph β} {block : β} {state : DataFlowState β}

/-- The same function analyzed with another profile. -/
def FlowGraph.withProfile (graph : FlowGraph β) (navigationOnly : Bool) : FlowGraph β :=
  { graph with navigationOnly }

/-- What a navigation run keeps of a state. -/
def DataFlowState.forget (state : DataFlowState β) : DataFlowState β :=
  { pointsTo := state.pointsTo }

@[simp] theorem forget_pointsTo : state.forget.pointsTo = state.pointsTo := rfl

theorem evaluatePointsTo_withProfile (navigationOnly : Bool) (pointsTo : Table PointsToValue)
    (expression : PointerExpr) :
    evaluatePointsTo (graph.withProfile navigationOnly) pointsTo expression =
      evaluatePointsTo graph pointsTo expression := by
  apply evaluatePointsTo_congr
  rfl

theorem assignedValue_withProfile (navigationOnly : Bool) (pointsTo : Table PointsToValue)
    (access : Access) : assignedValue (graph.withProfile navigationOnly) pointsTo access =
      assignedValue graph pointsTo access := by
  apply assignedValue_congr
  rfl

/-- A navigation run applies an access to what it keeps. -/
theorem applyAccess_forget (record : Access × Nat) :
    applyAccess (graph.withProfile true) block state.forget record =
      (applyAccess (graph.withProfile false) block state record).forget := by
  unfold applyAccess DataFlowState.forget
  simp only [assignedValue_withProfile]
  split <;> rfl

theorem transfer_forget : transfer (graph.withProfile true) block state.forget =
    (transfer (graph.withProfile false) block state).forget := by
  unfold transfer
  exact List.foldl_hom DataFlowState.forget fun state record => applyAccess_forget record

theorem joinPointsTo_forget (states : List (DataFlowState β)) (location : String) :
    joinPointsTo (states.map DataFlowState.forget) location = joinPointsTo states location := by
  unfold joinPointsTo
  rw [List.map_map]
  rfl

variable [DecidableEq β]

theorem joinStates_forget (states : List (DataFlowState β)) (incoming : Nat) :
    joinStates true (states.map DataFlowState.forget) incoming =
      (joinStates false states incoming).forget := by
  unfold joinStates DataFlowState.forget
  simp only [↓reduceIte, List.flatMap_map]
  congr 2
  funext location
  exact joinPointsTo_forget states location

/-- What a navigation run keeps of the inputs and outputs. -/
def forgetValues (values : Values β (BlockStates β)) : Values β (BlockStates β) := fun block =>
  (values block).map fun states => (states.1.forget, states.2.forget)

theorem blockStates_forget (values : Values β (BlockStates β)) (block : β) :
    blockStates (graph.withProfile true) (forgetValues values) block =
      ((blockStates (graph.withProfile false) values block).1.forget,
        (blockStates (graph.withProfile false) values block).2.forget) := by
  have hjoin : joinState (graph.withProfile true) (forgetValues values) block =
      (joinState (graph.withProfile false) values block).forget := by
    unfold joinState
    rw [show (graph.withProfile true).navigationOnly = true from rfl,
      show (graph.withProfile false).navigationOnly = false from rfl, ← joinStates_forget,
      List.map_filterMap]
    congr 1
    apply List.filterMap_congr
    intro previous _
    unfold forgetValues
    rw [Option.map_map, Option.map_map]
    rfl
  unfold blockStates
  simp only [hjoin, transfer_forget]

theorem sweepOnce_forget (blocks : List β) (values : Values β (BlockStates β)) :
    sweepOnce (blockStates (graph.withProfile true)) blocks (forgetValues values) =
      forgetValues (sweepOnce (blockStates (graph.withProfile false)) blocks values) := by
  rw [sweepOnce_eq, sweepOnce_eq]
  apply List.foldl_hom forgetValues
  intro values block
  rw [blockStates_forget]
  funext other
  by_cases hother : other = block
  · subst hother
    simp [forgetValues]
  · simp [forgetValues, Function.update_of_ne hother]

/-- The runs of both profiles have the same points-to values, however often each has swept. -/
theorem iterate_forget (cap : Nat) : (iterate (graph.withProfile true) cap).1 =
    forgetValues (iterate (graph.withProfile false) cap).1 := by
  unfold iterate
  rw [settle_values, settle_values]
  have hnone : (fun _ => none) = forgetValues (fun _ : β => none) := rfl
  induction cap with
  | zero => rfl
  | succ cap ih =>
      rw [Function.iterate_succ_apply', Function.iterate_succ_apply', ih]
      exact sweepOnce_forget _ _

theorem inputOf_forget (cap : Nat) (block : β) :
    (inputOf (iterate (graph.withProfile true) cap).1 block).pointsTo =
      (inputOf (iterate (graph.withProfile false) cap).1 block).pointsTo := by
  rw [iterate_forget]
  unfold inputOf forgetValues
  cases (iterate (graph.withProfile false) cap).1 block <;> rfl

end Forget

/-! ## The run over a body -/

/-- `DataAccessRecord` before its expression is evaluated. -/
structure SourceAccess where
  location : LocationKey
  kind : AccessKind
  assigned : Option SourceExpr := none
  pointsToComplete : Bool := true
  deriving DecidableEq, Repr

/-- `IndirectCallRecord`; the expression stands for its address. -/
structure SourceCall (β : Type) where
  expression : Nat
  callsite : String
  block : β
  callee : Option SourceExpr
  sequence : Nat

/-- What was collected about a function when the iteration starts. -/
structure Body (β : Type) where
  analysis : String
  blocks : List β
  entry : β
  predecessors : β → List β
  accesses : β → List SourceAccess
  locations : Locations
  calls : List (SourceCall β)
  indexed : String → Bool
  /-- `emitSymbol` of a function's declaration. -/
  symbolKey : String → Option String
  nodup : blocks.Nodup
  entry_mem : entry ∈ blocks
  predecessors_mem : ∀ block, ∀ previous ∈ predecessors block, previous ∈ blocks
  entry_first : predecessors entry = []
  wellformed : locations.Wellformed
  collected : ∀ block, ∀ access ∈ accesses block, (locations.lookup access.location).isSome

/-- The facts about a call that are handed to the sink. -/
inductive CallFact where
  | callsiteResolution (callsite : String) (targetSetComplete : Bool) (unresolvedReason : String)
  | callTarget (callsite target : String) (certain : Bool)
  deriving DecidableEq, Repr

namespace Body

variable {β : Type} (body : Body β)

/-- The collected locations by their texts. -/
def locationTable : Table Location :=
  body.locations.foldl (fun table (key, record) => table.insert (key.text body.analysis)
    { kind := record.kind, typeName := record.type.name,
      tracksPointsTo := record.type.tracksPointsTo }) ∅

/-- An access with its expression resolved in the given locations. -/
def resolved (locations : Locations) (access : SourceAccess) : Access where
  location := access.location.text body.analysis
  kind := access.kind
  assigned := access.assigned.map fun expression =>
    (expression.resolve body.analysis locations).1
  pointsToComplete := access.pointsToComplete

/-- The graph of the body, with the expressions resolved in the given locations. -/
def graph (locations : Locations) : FlowGraph β where
  blocks := body.blocks
  entry := body.entry
  predecessors := body.predecessors
  accesses block := (body.accesses block).map (body.resolved locations)
  locations := body.locationTable
  calls := []
  indexed := body.indexed
  nodup := body.nodup
  entry_mem := body.entry_mem
  predecessors_mem := body.predecessors_mem
  entry_first := body.entry_first

/-- The locations after an access: a definition that binds a pointer evaluates its expression. -/
def nameAccess (locations : Locations) (access : SourceAccess) : Locations :=
  if access.kind.isDefinition &&
      bindsPointer (body.graph locations) (body.resolved locations access) then
    match access.assigned with
    | some expression => (expression.resolve body.analysis locations).2
    | none => locations
  else locations

/-- One access of `transfer`, with the locations that it names. -/
def applyAccess (navigationOnly : Bool) (block : β) (run : DataFlowState β × Locations)
    (record : SourceAccess × Nat) : DataFlowState β × Locations :=
  let (state, locations) := run
  let (access, sequence) := record
  (Analyzer.applyAccess ((body.graph locations).withProfile navigationOnly) block state
    (body.resolved locations access, sequence), body.nameAccess locations access)

/-- `transfer` -/
def transfer (navigationOnly : Bool) (block : β) (state : DataFlowState β)
    (locations : Locations) : DataFlowState β × Locations :=
  (body.accesses block).zipIdx.foldl (body.applyAccess navigationOnly block) (state, locations)

variable [DecidableEq β]

/-- The blocks' inputs and outputs and the locations, while the blocks are visited. -/
structure Run (β : Type) where
  values : Values β (BlockStates β)
  locations : Locations
  changed : Bool := false

/-- One block in the loop. -/
def visit (navigationOnly : Bool) (run : Run β) (block : β) : Run β :=
  let input := joinState ((body.graph run.locations).withProfile navigationOnly) run.values block
  let (output, locations) := body.transfer navigationOnly block input run.locations
  if run.values block = some (input, output) then { run with locations }
  else
    { values := Function.update run.values block (some (input, output))
      locations
      changed := true }

/-- The loop of `emitDataFlow`. -/
def iterate (navigationOnly : Bool) : Nat → Run β → Run β
  | 0, run => run
  | cap + 1, run =>
      let swept := body.blocks.foldl (body.visit navigationOnly) { run with changed := false }
      if swept.changed then iterate navigationOnly cap swept else swept

/-! ## The pass over the calls -/

/-- The pass over a block: its calls that are still to come, and the values of those before. -/
structure CallPass (β : Type) where
  state : DataFlowState β
  locations : Locations
  calls : List (SourceCall β) := []
  values : List (Nat × PointsToValue)

/-- Evaluate a callee. -/
def evaluateCall (navigationOnly : Bool) (pass : CallPass β) (call : SourceCall β) : CallPass β :=
  match call.callee with
  | some expression =>
      let (expression, locations) := expression.resolve body.analysis pass.locations
      { pass with
        locations
        values := pass.values ++ [(call.expression, evaluatePointsTo
          ((body.graph locations).withProfile navigationOnly) pass.state.pointsTo expression)] }
  | none => { pass with values := pass.values ++ [(call.expression, unknownValue)] }

def evaluateCalls (navigationOnly : Bool) (pass : CallPass β) (due : SourceCall β → Bool) :
    CallPass β :=
  (pass.calls.takeWhile due).foldl (body.evaluateCall navigationOnly)
    { pass with calls := pass.calls.dropWhile due }

def stepPass (navigationOnly : Bool) (block : β) (pass : CallPass β)
    (record : SourceAccess × Nat) : CallPass β :=
  let pass := body.evaluateCalls navigationOnly pass fun call => call.sequence ≤ record.2
  let (state, locations) :=
    body.applyAccess navigationOnly block (pass.state, pass.locations) record
  { pass with state, locations }

/-- The pass over one block; it starts with the block's input. -/
def passBlock (navigationOnly : Bool) (values : Values β (BlockStates β)) (pass : CallPass β)
    (block : β) : CallPass β :=
  let calls := (body.calls.filter fun call => call.block = block).mergeSort
    fun first second => first.sequence ≤ second.sequence
  let start := { pass with state := inputOf values block, calls }
  body.evaluateCalls navigationOnly
    ((body.accesses block).zipIdx.foldl (body.stepPass navigationOnly block) start) fun _ => true

/-! ## Emission -/

/-- The facts about one call, given the value of its callee; the targets come in the order of
their keys. -/
def callFacts (call : SourceCall β) (value : PointsToValue) : List CallFact :=
  let certain := value.complete && !value.includesNull && value.functions.card == 1
  .callsiteResolution call.callsite value.complete
      (if value.complete then "" else "points_to_set_incomplete") ::
    (ascending value.functions).filterMap fun target =>
      if body.indexed target then
        (body.symbolKey target).map fun key => .callTarget call.callsite key certain
      else none

/-- The call facts of `emitDataFlow`. -/
def emitCalls (navigationOnly : Bool) (cap : Nat) : List CallFact :=
  -- Without indirect calls and tracked locations a navigation run ends here.
  if navigationOnly ∧ body.calls = [] ∧
      ∀ entry ∈ body.locations, entry.2.type.tracksPointsTo = false then []
  else
    let run := body.iterate navigationOnly cap { values := fun _ => none,
                                                 locations := body.locations }
    let pass := body.blocks.foldl (body.passBlock navigationOnly run.values)
      { state := {}, locations := run.locations, values := [] }
    -- A call of no block would be missing in the map, and have the default value.
    body.calls.flatMap fun call =>
      body.callFacts call (((lastBy Prod.fst call.expression pass.values).map Prod.snd).getD {})

end Body

/-! ## The locations settle in the first sweep -/

/-- Only a definition that binds a pointer reads its expression. -/
theorem applyAccess_unbound {β : Type} {graph : FlowGraph β} {block : β} {first second : Access}
    (hlocation : first.location = second.location) (hkind : first.kind = second.kind)
    (h : ¬ (first.kind.isDefinition && bindsPointer graph first) = true)
    (state : DataFlowState β) (sequence : Nat) :
    applyAccess graph block state (first, sequence) =
      applyAccess graph block state (second, sequence) := by
  have hbinds : bindsPointer graph second = bindsPointer graph first := by
    unfold bindsPointer
    rw [hlocation, hkind]
  unfold applyAccess
  simp only [hbinds, hlocation, hkind]
  rw [hkind] at h
  by_cases hdefinition : second.kind.isDefinition = true
  · simp only [hdefinition, Bool.true_and, Bool.not_eq_true] at h
    simp [h]
  · simp [hdefinition]

namespace Body

section Names

variable {β : Type} {body : Body β} {locations last : Locations} {navigationOnly : Bool}
variable {block : β} {state : DataFlowState β}

variable (body) in
theorem nameAccess_later (h : locations.Wellformed) (access : SourceAccess) :
    Locations.Later locations (body.nameAccess locations access) ∧
      (body.nameAccess locations access).Wellformed := by
  unfold nameAccess
  split
  · cases access.assigned with
    | none => exact ⟨.refl locations, h⟩
    | some expression =>
        obtain ⟨hlater, hwell, -⟩ := Locations.resolve_again body.analysis expression h
        exact ⟨hlater, hwell⟩
  · exact ⟨.refl locations, h⟩

/-- In a later table an access names nothing more. -/
theorem nameAccess_again (h : locations.Wellformed) (access : SourceAccess)
    (hlater : Locations.Later (body.nameAccess locations access) last) (hlast : last.Wellformed) :
    body.nameAccess last access = last := by
  have hbinds : bindsPointer (body.graph last) (body.resolved last access) =
      bindsPointer (body.graph locations) (body.resolved locations access) := rfl
  unfold nameAccess at hlater ⊢
  rw [hbinds]
  by_cases hnames : (access.kind.isDefinition &&
      bindsPointer (body.graph locations) (body.resolved locations access)) = true
  · rw [if_pos hnames] at hlater ⊢
    cases hassigned : access.assigned with
    | none => rfl
    | some expression =>
        rw [hassigned] at hlater
        obtain ⟨-, -, hagain⟩ := Locations.resolve_again body.analysis expression h
        simp only [hagain last hlater hlast]
  · rw [if_neg hnames]

/-- In a later table an access has the same effect. -/
theorem nameAccess_effect (h : locations.Wellformed) (access : SourceAccess)
    (hlater : Locations.Later (body.nameAccess locations access) last) (hlast : last.Wellformed)
    (state : DataFlowState β) (sequence : Nat) :
    Analyzer.applyAccess ((body.graph locations).withProfile navigationOnly) block state
        (body.resolved locations access, sequence) =
      Analyzer.applyAccess ((body.graph last).withProfile navigationOnly) block state
        (body.resolved last access, sequence) := by
  have hgraph : Analyzer.applyAccess ((body.graph locations).withProfile navigationOnly) block =
      Analyzer.applyAccess ((body.graph last).withProfile navigationOnly) block := by
    apply applyAccess_congr <;> rfl
  rw [hgraph]
  unfold nameAccess at hlater
  by_cases hnames : (access.kind.isDefinition &&
      bindsPointer (body.graph locations) (body.resolved locations access)) = true
  · rw [if_pos hnames] at hlater
    cases hassigned : access.assigned with
    | none => simp [resolved, hassigned]
    | some expression =>
        rw [hassigned] at hlater
        obtain ⟨-, -, hagain⟩ := Locations.resolve_again body.analysis expression h
        simp [resolved, hassigned, hagain last hlater hlast]
  · exact @applyAccess_unbound β ((body.graph last).withProfile navigationOnly) block
      (body.resolved locations access) (body.resolved last access) rfl rfl hnames state sequence

/-- In a later table the locations of the accesses are those that were collected. -/
theorem lookup_access {access : SourceAccess} (haccess : access ∈ body.accesses block)
    (hlater : Locations.Later body.locations last) :
    last.lookup access.location = body.locations.lookup access.location := by
  obtain ⟨record, hrecord⟩ := Option.isSome_iff_exists.mp (body.collected block access haccess)
  rw [hlater.lookup hrecord, hrecord]

variable (body) in
/-- The locations after some accesses. -/
def nameAll (locations : Locations) (accesses : List SourceAccess) : Locations :=
  accesses.foldl body.nameAccess locations

variable (body) in
theorem nameAll_later (h : locations.Wellformed) (accesses : List SourceAccess) :
    Locations.Later locations (body.nameAll locations accesses) ∧
      (body.nameAll locations accesses).Wellformed := by
  induction accesses generalizing locations with
  | nil => exact ⟨.refl locations, h⟩
  | cons access accesses ih =>
      obtain ⟨hlater, hwell⟩ := nameAccess_later body h access
      obtain ⟨hrest, hrestWell⟩ := ih hwell
      exact ⟨hlater.trans hrest, hrestWell⟩

theorem nameAll_again (h : locations.Wellformed) (accesses : List SourceAccess)
    (hlater : Locations.Later (body.nameAll locations accesses) last) (hlast : last.Wellformed) :
    body.nameAll last accesses = last := by
  induction accesses generalizing locations with
  | nil => rfl
  | cons access accesses ih =>
      obtain ⟨hfirst, hwell⟩ := nameAccess_later body h access
      have hrest := (nameAll_later body hwell accesses).1
      have hsame := nameAccess_again h access (hrest.trans hlater) hlast
      unfold nameAll
      rw [List.foldl_cons, hsame]
      exact ih hwell hlater

/-- A transfer is the one over the resolved accesses, with the locations that they name. -/
theorem transfer_eq (h : locations.Wellformed)
    (hlater : Locations.Later (body.nameAll locations (body.accesses block)) last)
    (hlast : last.Wellformed) : body.transfer navigationOnly block state locations =
      (Analyzer.transfer ((body.graph last).withProfile navigationOnly) block state,
        body.nameAll locations (body.accesses block)) := by
  have hrun (rest : List (SourceAccess × Nat)) : ∀ (state : DataFlowState β)
      (locations : Locations), locations.Wellformed →
      Locations.Later (body.nameAll locations (rest.map Prod.fst)) last →
      rest.foldl (body.applyAccess navigationOnly block) (state, locations) =
        ((rest.map fun record => (body.resolved last record.1, record.2)).foldl
          (Analyzer.applyAccess ((body.graph last).withProfile navigationOnly) block) state,
          body.nameAll locations (rest.map Prod.fst)) := by
    induction rest with
    | nil => exact fun _ _ _ _ => rfl
    | cons record rest ih =>
        intro state locations h hlater
        obtain ⟨hfirst, hwell⟩ := nameAccess_later body h record.1
        have hrest := (nameAll_later body hwell (rest.map Prod.fst)).1
        have hsame := @nameAccess_effect β body locations last navigationOnly block h record.1
          (hrest.trans hlater) hlast state record.2
        rw [List.foldl_cons, List.map_cons, List.foldl_cons, List.map_cons]
        unfold applyAccess
        simp only
        rw [hsame]
        exact ih _ _ hwell hlater
  have haccesses : (body.accesses block).zipIdx.map Prod.fst = body.accesses block := by simp
  unfold transfer
  rw [hrun _ state locations h (by rw [haccesses]; exact hlater), haccesses]
  unfold Analyzer.transfer
  congr 2
  show _ = ((body.accesses block).map (body.resolved last)).zipIdx
  rw [List.zipIdx_map]
  rfl

variable (body) in
/-- The locations after the accesses of some blocks. -/
def nameBlocks (locations : Locations) (blocks : List β) : Locations :=
  body.nameAll locations (blocks.flatMap body.accesses)

theorem nameBlocks_cons (locations : Locations) (block : β) (blocks : List β) :
    body.nameBlocks locations (block :: blocks) =
      body.nameBlocks (body.nameAll locations (body.accesses block)) blocks := by
  unfold nameBlocks nameAll
  rw [List.flatMap_cons, List.foldl_append]

variable [DecidableEq β]

/-- The visits of some blocks are those of the graph. -/
theorem visits_eq (hlast : last.Wellformed) (blocks : List β) : ∀ run : Run β,
    run.locations.Wellformed → Locations.Later (body.nameBlocks run.locations blocks) last →
    let visits := blocks.foldl
      (Foundation.visit (blockStates ((body.graph last).withProfile navigationOnly)))
      (run.values, run.changed)
    blocks.foldl (body.visit navigationOnly) run =
      { values := visits.1, changed := visits.2,
        locations := body.nameBlocks run.locations blocks } := by
  induction blocks with
  | nil => exact fun _ _ _ => rfl
  | cons block blocks ih =>
      intro run h hlater
      rw [nameBlocks_cons] at hlater
      obtain ⟨hfirst, hwell⟩ := nameAll_later body h (body.accesses block)
      have hrest := (nameAll_later body hwell (blocks.flatMap body.accesses)).1
      have hvisit : body.visit navigationOnly run block =
          { values := (Foundation.visit (blockStates ((body.graph last).withProfile
              navigationOnly)) (run.values, run.changed) block).1
            changed := (Foundation.visit (blockStates ((body.graph last).withProfile
              navigationOnly)) (run.values, run.changed) block).2
            locations := body.nameAll run.locations (body.accesses block) } := by
        have hjoin : joinState ((body.graph run.locations).withProfile navigationOnly)
            run.values block =
              joinState ((body.graph last).withProfile navigationOnly) run.values block := rfl
        unfold visit Foundation.visit blockStates
        simp only [hjoin, transfer_eq h (hrest.trans hlater) hlast]
        split <;> rfl
      simp only [List.foldl_cons]
      rw [hvisit, nameBlocks_cons]
      exact ih _ hwell hlater

/-- The loop is that of the graph, whose expressions are resolved in the locations after the first
sweep. -/
theorem iterate_eq (hlast : last.Wellformed) (cap : Nat) : ∀ run : Run β,
    run.locations.Wellformed → Locations.Later (body.nameBlocks run.locations body.blocks) last →
      (body.iterate navigationOnly cap run).values =
          (settle (blockStates ((body.graph last).withProfile navigationOnly)) body.blocks cap
            run.values).1 ∧
        (body.iterate navigationOnly cap run).locations =
          if cap = 0 then run.locations else body.nameBlocks run.locations body.blocks := by
  induction cap with
  | zero => exact fun _ _ _ => ⟨rfl, rfl⟩
  | succ cap ih =>
      intro run h hlater
      have hswept := @visits_eq β body last navigationOnly _ hlast body.blocks
        { run with changed := false } h hlater
      obtain ⟨-, hwell⟩ := nameAll_later body h (body.blocks.flatMap body.accesses)
      have hagain : body.nameBlocks (body.nameBlocks run.locations body.blocks) body.blocks =
          body.nameBlocks run.locations body.blocks :=
        nameAll_again h _ (.refl _) hwell
      unfold iterate
      rw [hswept]
      unfold settle sweep
      simp only [Nat.add_eq_zero_iff, one_ne_zero, and_false, ↓reduceIte]
      split
      · have hnext : Locations.Later (body.nameBlocks (body.nameBlocks run.locations body.blocks)
            body.blocks) last := by
          rw [hagain]
          exact hlater
        obtain ⟨hvalues, hlocations⟩ := ih ⟨_, body.nameBlocks run.locations body.blocks, _⟩
          hwell hnext
        refine ⟨hvalues, hlocations.trans ?_⟩
        split
        · rfl
        · exact hagain
      · exact ⟨rfl, rfl⟩

end Names

/-! ## Both passes -/

section Passes

variable {β : Type} {body : Body β} {block : β} {navigation full : CallPass β}

/-- The two passes are at the same place, and what pointers point to is the same. -/
structure Agree (navigation full : CallPass β) : Prop where
  pointsTo : navigation.state.pointsTo = full.state.pointsTo
  locations : navigation.locations = full.locations
  calls : navigation.calls = full.calls
  values : navigation.values = full.values

theorem Agree.evaluateCall (h : Agree navigation full) (call : SourceCall β) :
    Agree (body.evaluateCall true navigation call) (body.evaluateCall false full call) := by
  unfold Body.evaluateCall
  cases call.callee with
  | none => exact ⟨h.pointsTo, h.locations, h.calls, by simp only [h.values]⟩
  | some expression =>
      refine ⟨h.pointsTo, by simp only [h.locations], h.calls, ?_⟩
      simp only [h.values, h.locations, h.pointsTo, evaluatePointsTo_withProfile]

theorem Agree.evaluateCalls (h : Agree navigation full) (due : SourceCall β → Bool) :
    Agree (body.evaluateCalls true navigation due) (body.evaluateCalls false full due) := by
  unfold Body.evaluateCalls
  rw [h.calls]
  apply List.foldl_rel
  · exact ⟨h.pointsTo, h.locations, rfl, h.values⟩
  · exact fun call _ _ _ hagree => hagree.evaluateCall call

theorem Agree.stepPass (h : Agree navigation full) (record : SourceAccess × Nat) :
    Agree (body.stepPass true block navigation record)
      (body.stepPass false block full record) := by
  obtain ⟨hpointsTo, hlocations, hcalls, hvalues⟩ :=
    @Agree.evaluateCalls β body _ _ h fun call => call.sequence ≤ record.2
  unfold Body.stepPass Body.applyAccess
  refine ⟨?_, by simp only [hlocations], hcalls, hvalues⟩
  simp only [pointsTo_applyAccess, hlocations, hpointsTo, assignedValue_withProfile]
  rfl

variable [DecidableEq β]

theorem Agree.passBlock (h : Agree navigation full) {values known : Values β (BlockStates β)}
    (hinput : (inputOf values block).pointsTo = (inputOf known block).pointsTo) :
    Agree (body.passBlock true values navigation block) (body.passBlock false known full block) := by
  unfold Body.passBlock
  apply Agree.evaluateCalls
  apply List.foldl_rel
  · exact ⟨hinput, h.locations, rfl, h.values⟩
  · exact fun record _ _ _ hagree => hagree.stepPass record

end Passes

end Body

end CppContextEngine.Analyzer
