import CppContextEngine.Analyzer.PathValues

/-!
# Closed sets of call targets

A target set that is marked complete has the functions of all paths to the call
that go back less often than there were sweeps, and so of all paths once the
sweeps have settled.  A function that only longer paths bind can be missing.
-/

namespace CppContextEngine.Analyzer

open CppContextEngine.Foundation

section Calls

variable {β : Type} (graph : FlowGraph β) (call : IndirectCall β)

/-- The locations whose values can come to be the callee. -/
inductive FlowsTo : String → Prop where
  | callee {expression : PointerExpr} {location : String} :
      call.callee = some expression → location ∈ expression.reads → FlowsTo location
  | assigned {block : β} {access : Access} {expression : PointerExpr} {location : String} :
      access ∈ graph.accesses block → access.kind.isDefinition = true →
        bindsPointer graph access = true → FlowsTo access.location →
          access.assigned = some expression → location ∈ expression.reads → FlowsTo location

/-- Where such a location is defined without an expression, it is marked incomplete. -/
def MarksUnknown : Prop :=
  ∀ block, ∀ access ∈ graph.accesses block, FlowsTo graph call access.location →
    access.kind.isDefinition = true → bindsPointer graph access = true →
      access.assigned = none → access.pointsToComplete = false

variable {graph call}

theorem tracked_flowsTo (hmarks : MarksUnknown graph call) :
    Tracked graph {location | FlowsTo graph call location} := by
  intro block access haccess hflows hkind hpointer
  constructor
  · intro expression hassigned location hread
    exact .assigned haccess hkind hpointer hflows hassigned hread
  · exact hmarks block access haccess hflows hkind hpointer

variable [DecidableEq β]

variable (graph call) in
/-- A value that the callee has on a path to the call, or on the last part of one, and how often
the path goes back. -/
def CalleeValue (whole : Bool) (value : PathValue) (back : Nat) : Prop :=
  ∃ environment, Path graph whole
      (call.block, min call.sequence (graph.accesses call.block).length) environment back ∧
    EvaluatesOptional environment call.callee value

variable (graph call) in
/-- The last part of a path, with less than `cap` steps back, gives the callee the value. -/
def SeenWithin (cap : Nat) (found : PathValue) : Prop :=
  ∃ back < cap, CalleeValue graph call false found back

variable (graph call) in
/-- Such paths give the callee one function only, and never null. -/
def SoleTarget (cap : Nat) : Prop :=
  (∃! key, SeenWithin graph call cap (.function key)) ∧ ¬ SeenWithin graph call cap .null

/-- The value of a call admits what paths with fewer steps back than sweeps give it. -/
theorem callValues_admits (hmarks : MarksUnknown graph call) {cap : Nat} {value : PointsToValue}
    (hvalue : (call, value) ∈ callValues graph cap) {found : PathValue} {back : Nat}
    (hback : back < cap) {whole : Bool} (hfound : CalleeValue graph call whole found back) :
    value.Admits found := by
  obtain ⟨-, hblock, rfl⟩ := callValues_evaluated hvalue
  obtain ⟨environment, hpath, hcallee⟩ := hfound
  have hcovers := covers_stateAt (tracked_flowsTo hmarks) hblock hpath hback
  exact evaluateOptional_admits hcovers (fun expression hexpression location hread =>
    .callee hexpression hread) hcallee

/-- Once the sweeps have settled, more sweeps would find the same values. -/
theorem callValues_of_settled {cap more : Nat} (hconverged : (iterate graph cap).2 = true)
    (hmore : cap ≤ more) : callValues graph more = callValues graph cap := by
  have hsame : (iterate graph more).1 = (iterate graph cap).1 := by
    obtain ⟨rest, rfl⟩ := Nat.exists_eq_add_of_le' hmore
    have hstable := settle_stable cap hconverged
    unfold iterate at hstable ⊢
    rw [settle_values, settle_values] at *
    rw [Function.iterate_add_apply, sweepOnce_of_stable hstable]
  unfold callValues
  rw [hsame]

/-- After convergence a closed set admits the values of all paths. -/
theorem callValues_admits_of_settled (hmarks : MarksUnknown graph call) {cap : Nat}
    {value : PointsToValue} (hvalue : (call, value) ∈ callValues graph cap)
    (hconverged : (iterate graph cap).2 = true) {found : PathValue} {back : Nat}
    (hfound : CalleeValue graph call true found back) : value.Admits found := by
  rw [← callValues_of_settled hconverged (Nat.le_add_right cap (back + 1))] at hvalue
  exact callValues_admits hmarks hvalue (by omega) hfound

/-- A target is emitted as certain. -/
def PointsToValue.isCertain (value : PointsToValue) : Bool :=
  value.complete && !value.includesNull && value.functions.card = 1

/-- A set that is marked complete has just the functions and the null that were seen. -/
theorem seenWithin_iff (hmarks : MarksUnknown graph call) {cap : Nat} (hcap : 0 < cap)
    {value : PointsToValue} (hvalue : (call, value) ∈ callValues graph cap)
    (hcomplete : value.complete = true) {found : PathValue} (htarget : found.IsTarget) :
    SeenWithin graph call cap found ↔ value.Has found := by
  constructor
  · rintro ⟨back, hback, hfound⟩
    exact callValues_admits hmarks hvalue hback hfound hcomplete
  · intro hhas
    obtain ⟨-, hblock, rfl⟩ := callValues_evaluated hvalue
    obtain ⟨hreach, hwitnessed⟩ := stateAt_witnessed hcap hblock
      (Nat.min_le_right call.sequence (graph.accesses call.block).length)
    unfold SeenWithin CalleeValue
    cases hcallee : call.callee with
    | none =>
        rw [hcallee] at hcomplete
        cases hcomplete
    | some expression =>
        rw [hcallee] at hhas
        obtain ⟨environment, back, hback, hpath, hfound⟩ :=
          evaluatePointsTo_witnessed hwitnessed hreach hhas htarget
        exact ⟨back, hback, environment, hpath, hfound⟩

theorem soleTarget_iff (hmarks : MarksUnknown graph call) {cap : Nat} (hcap : 0 < cap)
    {value : PointsToValue} (hvalue : (call, value) ∈ callValues graph cap)
    (hcomplete : value.complete = true) :
    SoleTarget graph call cap ↔ value.isCertain = true := by
  have hfunction (key : String) : SeenWithin graph call cap (.function key) ↔
      key ∈ value.functions := seenWithin_iff hmarks hcap hvalue hcomplete trivial
  have hnull : SeenWithin graph call cap .null ↔ value.includesNull = true :=
    seenWithin_iff hmarks hcap hvalue hcomplete trivial
  unfold SoleTarget PointsToValue.isCertain
  simp only [hfunction, hnull, hcomplete, ExistsUnique]
  rw [and_comm]
  simp [Finset.card_eq_one, Finset.eq_singleton_iff_unique_mem]

/-- A set that is marked complete has the functions of all paths, and a certain target is what all
paths give, just when all this is seen on paths that go back less often than there were sweeps. -/
theorem closedTargets_iff (hmarks : MarksUnknown graph call) {cap : Nat} (hcap : 0 < cap)
    {value : PointsToValue} (hvalue : (call, value) ∈ callValues graph cap)
    (hcomplete : value.complete = true) :
    ((∀ key back, CalleeValue graph call true (.function key) back → key ∈ value.functions) ∧
        (value.isCertain = true → ∃ key, value.functions = {key} ∧
          ∀ found back, CalleeValue graph call true found back → found = .function key)) ↔
      (∀ key back, CalleeValue graph call true (.function key) back →
          SeenWithin graph call cap (.function key)) ∧
        (SoleTarget graph call cap → ∀ found back, CalleeValue graph call true found back →
          SeenWithin graph call cap found ∧ ∀ key, found ≠ .location key) := by
  have hfunction (key : String) : SeenWithin graph call cap (.function key) ↔
      key ∈ value.functions := seenWithin_iff hmarks hcap hvalue hcomplete trivial
  have hnull : SeenWithin graph call cap .null ↔ value.includesNull = true :=
    seenWithin_iff hmarks hcap hvalue hcomplete trivial
  have hsole := soleTarget_iff hmarks hcap hvalue hcomplete
  constructor
  · rintro ⟨hclosed, hcertain⟩
    refine ⟨fun key back hfound => (hfunction key).mpr (hclosed key back hfound), ?_⟩
    intro htarget found back hfound
    obtain ⟨key, hkey, hall⟩ := hcertain (hsole.mp htarget)
    have hsame := hall found back hfound
    subst hsame
    have hmem : key ∈ value.functions := by
      rw [hkey]
      exact Finset.mem_singleton_self _
    exact ⟨(hfunction key).mpr hmem, fun _ h => by cases h⟩
  · rintro ⟨hclosed, htarget⟩
    have hfunctions (key : String) (back : Nat)
        (hfound : CalleeValue graph call true (.function key) back) : key ∈ value.functions :=
      (hfunction key).mp (hclosed key back hfound)
    refine ⟨hfunctions, fun hcertain => ?_⟩
    have hcard := hcertain
    unfold PointsToValue.isCertain at hcard
    simp only [Bool.and_eq_true, Bool.not_eq_true', decide_eq_true_eq] at hcard
    obtain ⟨⟨-, hexcluded⟩, hcard⟩ := hcard
    obtain ⟨key, hkey⟩ := Finset.card_eq_one.mp hcard
    refine ⟨key, hkey, fun found back hfound => ?_⟩
    obtain ⟨hshort, hstorage⟩ := htarget (hsole.mpr hcertain) found back hfound
    cases found with
    | function other =>
        have hmem := hfunctions other back hfound
        rw [hkey, Finset.mem_singleton] at hmem
        rw [hmem]
    | location other => exact absurd rfl (hstorage other)
    | null =>
        rw [hnull, hexcluded] at hshort
        cases hshort
    | unknown =>
        obtain ⟨few, hfew, hunknown⟩ := hshort
        have hopen := not_admits_unknown.mp (callValues_admits hmarks hvalue hfew hunknown)
        rw [hcomplete] at hopen
        cases hopen

end Calls

/-! ## Cases that fall through -/

/-- A switch whose cases fall through: block 0 initializes `p` and branches, the blocks behind it
are the cases from the last one to the first, which assigns `p`, and the last case calls it. -/
def fallthrough (cases : Nat) : FlowGraph Nat where
  blocks := List.range (cases + 2)
  entry := cases + 1
  predecessors block :=
    if block = 0 then [cases + 1]
    else if block < cases then [0, block + 1]
    else if block = cases then [0]
    else []
  accesses block :=
    if block = 0 then
      [{ location := "p", kind := .initialization, assigned := some (.function "f") }]
    else if block = cases then
      [{ location := "p", kind := .assignment, assigned := some (.function "g") }]
    else []
  locations := (∅ : Table Location).insert "p"
    { kind := "local", typeName := "void (*)()", tracksPointsTo := true }
  calls := [{ block := 1, callee := some (.value "p" true), sequence := 0 }]
  indexed _ := true
  nodup := List.nodup_range
  entry_mem := by simp
  predecessors_mem := by
    intro block previous h
    split_ifs at h <;> simp at h <;> simp <;> omega
  entry_first := by simp


theorem fallthrough_idxOf {cases block : Nat} (h : block ≤ cases + 1) :
    (fallthrough cases).blocks.idxOf block = block := by
  have hlength : block < (List.range (cases + 2)).length := by
    rw [List.length_range]
    omega
  have hindex := (List.nodup_range (n := cases + 2)).idxOf_getElem block hlength
  rwa [List.getElem_range] at hindex

/-- What `p` points to behind a block after so many sweeps. -/
def fallthroughValue (cases count block : Nat) : PointsToValue :=
  if block = cases then { functions := {"g"} }
  else if 0 < block ∧ cases < count + block then { functions := {"f", "g"} }
  else { functions := {"f"} }

/-- The states of the blocks up to the first case after so many sweeps. -/
def Fallthrough (cases count block : Nat) (result : Option (BlockStates Nat)) : Prop :=
  if count = 0 then result = none
  else block ≤ cases → ∃ states, result = some states ∧
    states.2.pointsTo["p"]? = some (fallthroughValue cases count block) ∧
      (0 < block → block < cases →
        states.1.pointsTo["p"]? = some (fallthroughValue cases count block))

theorem fallthrough_bindsPointer {cases : Nat} {access : Access}
    (hlocation : access.location = "p") : bindsPointer (fallthrough cases) access = true := by
  unfold bindsPointer
  rw [hlocation]
  rfl

theorem fallthrough_assigns {cases block : Nat} {access : Access} {key : String}
    (haccesses : (fallthrough cases).accesses block = [access]) (hlocation : access.location = "p")
    (hkind : access.kind.isDefinition = true) (hassigned : access.assigned = some (.function key))
    (state : DataFlowState Nat) :
    (transfer (fallthrough cases) block state).pointsTo["p"]? = some { functions := {key} } := by
  unfold transfer
  rw [haccesses]
  simp only [List.zipIdx_cons, List.zipIdx_nil, List.foldl_cons, List.foldl_nil]
  rw [pointsTo_applyAccess, hkind, fallthrough_bindsPointer hlocation, hlocation]
  simp only [Bool.and_self, ↓reduceIte, Table.getElem?_insert, assignedValue, hassigned,
    evaluatePointsTo]
  rfl

theorem capPointsTo_functions {functions : Finset String}
    (h : functions.card ≤ dataFlowMaxAliasTargets) :
    capPointsTo { functions } = { functions } := by
  unfold capPointsTo
  rw [if_pos (by simpa using h)]

/-- The join of the branch and the case before. -/
theorem fallthrough_join {cases count block : Nat} (hpos : 0 < block) (hblock : block < cases)
    {values : Values Nat (BlockStates Nat)}
    (hfirst : Fallthrough cases (count + 1) 0 (values 0))
    (hcase : Fallthrough cases count (block + 1) (values (block + 1))) :
    (joinState (fallthrough cases) values block).pointsTo["p"]? =
      some (fallthroughValue cases (count + 1) block) := by
  unfold Fallthrough at hfirst hcase
  rw [if_neg (by omega)] at hfirst
  obtain ⟨first, hstored, hbranch, -⟩ := hfirst (by omega)
  have hhead : fallthroughValue cases (count + 1) 0 = { functions := {"f"} } := by
    have hne : 0 ≠ cases := by omega
    simp [fallthroughValue, hne]
  rw [hhead] at hbranch
  have hkey : "p" ∈ first.2.pointsTo.keys := Table.mem_keys_iff.mpr ⟨_, hbranch⟩
  have hpredecessors : (fallthrough cases).predecessors block = [0, block + 1] := by
    have hne : block ≠ 0 := by omega
    simp [fallthrough, hne, hblock]
  have hvalue : fallthroughValue cases (count + 1) block =
      { functions := if cases ≤ count + block then {"f", "g"} else {"f"} } := by
    have hne : block ≠ cases := by omega
    unfold fallthroughValue
    by_cases hlate : cases ≤ count + block
    · rw [if_neg hne, if_pos (by omega), if_pos hlate]
    · rw [if_neg hne, if_neg (by omega), if_neg hlate]
  have hcard : ∀ functions ⊆ ({"f", "g"} : Finset String),
      functions.card ≤ dataFlowMaxAliasTargets := by
    intro functions hsub
    exact (Finset.card_le_card hsub).trans (by decide)
  unfold joinState
  rw [hpredecessors, pointsTo_joinStates, hvalue]
  rcases Nat.eq_zero_or_pos count with rfl | hcount
  · rw [if_pos rfl] at hcase
    have hearly : ¬ cases ≤ 0 + block := by omega
    simp only [List.filterMap_cons, hstored, hcase, Option.map_some, Option.map_none,
      List.filterMap_nil, List.flatMap_cons, List.flatMap_nil, List.append_nil, hkey, ↓reduceIte,
      joinPointsTo, List.map_cons, List.map_nil, hbranch, List.foldl_cons, List.foldl_nil,
      mergePointsTo, hearly]
    exact congrArg some (capPointsTo_functions (hcard _ (by decide)))
  · rw [if_neg (by omega)] at hcase
    obtain ⟨last, hlast, hpoints, -⟩ := hcase (by omega)
    have hprevious : fallthroughValue cases count (block + 1) =
        { functions := if block + 1 = cases then {"g"}
            else if cases ≤ count + block then {"f", "g"} else {"f"} } := by
      unfold fallthroughValue
      by_cases hlate : cases ≤ count + block
      · rw [if_pos (by omega : 0 < block + 1 ∧ cases < count + (block + 1)), if_pos hlate]
        split <;> rfl
      · rw [if_neg (by omega : ¬ (0 < block + 1 ∧ cases < count + (block + 1))), if_neg hlate]
        split <;> rfl
    simp only [List.filterMap_cons, hstored, hlast, Option.map_some, List.filterMap_nil,
      List.flatMap_cons, List.flatMap_nil, List.append_nil, List.mem_append, hkey, true_or,
      ↓reduceIte, joinPointsTo, List.map_cons, List.map_nil, hbranch, hpoints, hprevious,
      List.foldl_cons, List.foldl_nil, mergePointsTo]
    by_cases hlast : block + 1 = cases
    · have hlate : cases ≤ count + block := by omega
      simp only [hlast, hlate, ↓reduceIte]
      exact congrArg some (capPointsTo_functions (hcard _ (by decide)))
    · by_cases hlate : cases ≤ count + block
      · simp only [hlast, hlate, ↓reduceIte]
        exact congrArg some (capPointsTo_functions (hcard _ (by decide)))
      · simp only [hlast, hlate, ↓reduceIte]
        exact congrArg some (capPointsTo_functions (hcard _ (by decide)))

theorem fallthrough_step {cases count : Nat} (hcases : 0 < cases)
    {values : Values Nat (BlockStates Nat)} {block : Nat} (hblock : block ≤ cases)
    (hnext : 0 < block → Fallthrough cases (count + 1) 0 (values 0))
    (hlast : block < cases → Fallthrough cases count (block + 1) (values (block + 1))) :
    Fallthrough cases (count + 1) block (some (blockStates (fallthrough cases) values block)) := by
  unfold Fallthrough
  rw [if_neg (by omega)]
  intro _
  refine ⟨_, rfl, ?_⟩
  unfold blockStates
  simp only
  rcases Nat.eq_zero_or_pos block with rfl | hpos
  · refine ⟨?_, fun h => absurd h (lt_irrefl 0)⟩
    have hvalue : fallthroughValue cases (count + 1) 0 = { functions := {"f"} } := by
      have hne : 0 ≠ cases := by omega
      simp [fallthroughValue, hne]
    rw [hvalue]
    exact fallthrough_assigns rfl rfl rfl rfl _
  · have hne : block ≠ 0 := by omega
    rcases Nat.lt_or_eq_of_le hblock with hlt | rfl
    · have hempty : (fallthrough cases).accesses block = [] := by
        have hother : block ≠ cases := by omega
        simp [fallthrough, hne, hother]
      have hsame (state : DataFlowState Nat) :
          transfer (fallthrough cases) block state = state := by
        unfold transfer
        rw [hempty]
        rfl
      rw [hsame]
      have hjoin := fallthrough_join hpos hlt (hnext hpos) (hlast hlt)
      exact ⟨hjoin, fun _ _ => hjoin⟩
    · refine ⟨?_, fun _ h => absurd h (lt_irrefl block)⟩
      have hvalue : fallthroughValue block (count + 1) block = { functions := {"g"} } := by
        simp [fallthroughValue]
      have haccesses : (fallthrough block).accesses block =
          [{ location := "p", kind := .assignment, assigned := some (.function "g") }] := by
        simp [fallthrough, hne]
      rw [hvalue]
      exact fallthrough_assigns haccesses rfl rfl rfl _

theorem fallthrough_iterate {cases : Nat} (hcases : 0 < cases) (cap : Nat) :
    ∀ block ∈ (fallthrough cases).blocks,
      Fallthrough cases cap block ((iterate (fallthrough cases) cap).1 block) := by
  unfold iterate
  rw [settle_values]
  apply sweeps_stage (fallthrough cases).nodup (Q := Fallthrough cases)
  · intro count values block hblock hnext hlast
    have hmem (other : Nat) : other ∈ (fallthrough cases).blocks ↔ other < cases + 2 :=
      List.mem_range
    rw [hmem] at hblock
    by_cases hlt : block ≤ cases
    · apply fallthrough_step hcases hlt
      · intro hpos
        apply hnext 0 ((hmem 0).mpr (by omega))
        rw [fallthrough_idxOf (by omega), fallthrough_idxOf (by omega)]
        exact hpos
      · intro hcase
        apply hlast (block + 1) ((hmem _).mpr (by omega))
        rw [fallthrough_idxOf (by omega), fallthrough_idxOf (by omega)]
        omega
    · unfold Fallthrough
      rw [if_neg (by omega)]
      exact fun h => absurd h hlt
  · intro block _
    rfl

def fallthroughCall : IndirectCall Nat :=
  { block := 1, callee := some (.value "p" true), sequence := 0 }

theorem fallthrough_callValues {cases cap : Nat} (hcases : 1 < cases) (hcap : 0 < cap) :
    (fallthroughCall, fallthroughValue cases cap 1) ∈ callValues (fallthrough cases) cap := by
  have hmem : fallthroughCall.block ∈ (fallthrough cases).blocks := List.mem_range.mpr (by
    simp [fallthroughCall])
  obtain ⟨value, hvalue⟩ := callValues_exists cap
    (List.mem_singleton_self fallthroughCall : fallthroughCall ∈ (fallthrough cases).calls) hmem
  obtain ⟨-, -, hevaluated⟩ := callValues_evaluated hvalue
  have hstates := fallthrough_iterate (by omega : 0 < cases) cap fallthroughCall.block hmem
  unfold Fallthrough at hstates
  rw [if_neg (by omega)] at hstates
  obtain ⟨states, hstored, -, hpoints⟩ := hstates (by simp [fallthroughCall]; omega)
  have hsequence : min fallthroughCall.sequence
      ((fallthrough cases).accesses fallthroughCall.block).length = 0 := Nat.zero_min _
  have hinput : (inputOf (iterate (fallthrough cases) cap).1 fallthroughCall.block) = states.1 := by
    unfold inputOf
    rw [hstored]
    rfl
  rw [hsequence, stateAt_zero, hinput] at hevaluated
  have hsame : value = fallthroughValue cases cap 1 := by
    rw [hevaluated]
    have hlocation := hpoints (by simp [fallthroughCall]) (by simp [fallthroughCall]; omega)
    unfold evaluateOptional fallthroughCall evaluatePointsTo
    simp only [hlocation]
    rfl
  rw [← hsame]
  exact hvalue

theorem fallthrough_bind {cases block back : Nat} {environment : PathEnvironment} {access : Access}
    {key : String} (haccesses : (fallthrough cases).accesses block = [access])
    (hlocation : access.location = "p") (hkind : access.kind.isDefinition = true)
    (hassigned : access.assigned = some (.function key))
    (h : Path (fallthrough cases) true (block, 0) environment back) :
    Path (fallthrough cases) true (block, ((fallthrough cases).accesses block).length)
      (Function.update environment "p" (.bound (.function key))) back := by
  have haccess : ((fallthrough cases).accesses block)[0]? = some access := by
    rw [haccesses]
    rfl
  have hvalue : EvaluatesOptional environment access.assigned (.function key) := by
    rw [hassigned]
    exact .function key
  have hbinds := Binds.bind hkind (@fallthrough_bindsPointer cases access hlocation) hvalue
  rw [hlocation] at hbinds
  rw [haccesses]
  exact h.access haccess hbinds

/-- The path through the cases from the first one. -/
theorem fallthrough_path {cases : Nat} : ∀ passed, passed + 1 < cases →
    ∃ environment back, Path (fallthrough cases) true (cases - passed - 1, 0) environment back ∧
      environment "p" = .bound (.function "g") := by
  intro passed
  induction passed with
  | zero =>
      intro hcases
      have hne : cases ≠ 0 := by omega
      have hentry : Path (fallthrough cases) true
          (cases + 1, ((fallthrough cases).accesses (cases + 1)).length) (fun _ => .unbound) 0 := by
        simpa [fallthrough] using (Path.entry : Path (fallthrough cases) true _ _ 0)
      have hbranch := fallthrough_bind rfl rfl rfl rfl
        (hentry.jump (by simp [fallthrough] : cases + 1 ∈ (fallthrough cases).predecessors 0))
      have hfirst := hbranch.jump
        (by simp [fallthrough, hne] : 0 ∈ (fallthrough cases).predecessors cases)
      have hassigns : (fallthrough cases).accesses cases =
          [{ location := "p", kind := .assignment, assigned := some (.function "g") }] := by
        simp [fallthrough, hne]
      have hcase := fallthrough_bind hassigns rfl rfl rfl hfirst
      have hprevious : cases ∈ (fallthrough cases).predecessors (cases - 1) := by
        have hpos : cases - 1 ≠ 0 := by omega
        have hlt : cases - 1 < cases := by omega
        have hback : cases - 1 + 1 = cases := by omega
        simp [fallthrough, hpos, hlt, hback]
      exact ⟨_, _, hcase.jump hprevious, by rw [Function.update_self]⟩
  | succ passed ih =>
      intro hcases
      obtain ⟨environment, back, hpath, hbinding⟩ := ih (by omega)
      have hempty : (fallthrough cases).accesses (cases - passed - 1) = [] := by
        have hpos : cases - passed - 1 ≠ 0 := by omega
        have hother : cases - passed - 1 ≠ cases := by omega
        simp [fallthrough, hpos, hother]
      have hend : Path (fallthrough cases) true
          (cases - passed - 1, ((fallthrough cases).accesses (cases - passed - 1)).length)
          environment back := by
        rw [hempty]
        exact hpath
      have hprevious : cases - passed - 1 ∈
          (fallthrough cases).predecessors (cases - (passed + 1) - 1) := by
        have hpos : cases - (passed + 1) - 1 ≠ 0 := by omega
        have hlt : cases - (passed + 1) - 1 < cases := by omega
        have hback : cases - passed - 1 = cases - (passed + 1) - 1 + 1 := by omega
        simp only [fallthrough, hpos, hlt, ↓reduceIte]
        rw [hback]
        simp
      exact ⟨environment, _, hend.jump hprevious, hbinding⟩

/-- The first case gives the call in the last one a function. -/
theorem fallthrough_callee {cases : Nat} (hcases : 1 < cases) :
    ∃ back, CalleeValue (fallthrough cases) fallthroughCall true (.function "g") back := by
  obtain ⟨environment, back, hpath, hbinding⟩ := @fallthrough_path cases (cases - 2) (by omega)
  have hblock : cases - (cases - 2) - 1 = 1 := by omega
  rw [hblock] at hpath
  exact ⟨back, environment, hpath, .bound hbinding⟩

theorem fallthrough_marksUnknown (cases : Nat) :
    MarksUnknown (fallthrough cases) fallthroughCall := by
  intro block access haccess _ _ _ hnone
  simp only [fallthrough] at haccess
  split_ifs at haccess <;> simp at haccess <;> subst haccess <;> cases hnone

/-- With one case more than there are sweeps, one of two functions is certain to be called. -/
theorem fallthrough_certain : ∃ value, (fallthroughCall, value) ∈ callValues (fallthrough 65)
      dataFlowMaxIterations ∧ value.complete = true ∧ value.isCertain = true ∧
    "g" ∉ value.functions ∧
      ∃ back, CalleeValue (fallthrough 65) fallthroughCall true (.function "g") back :=
  ⟨_, fallthrough_callValues (by decide) (by decide), by decide, by decide, by decide,
    fallthrough_callee (by decide)⟩

/-- The function of the first case is not seen within the sweeps. -/
theorem closedTargets_iff_fallthrough :
    ¬ ((∀ key back, CalleeValue (fallthrough 65) fallthroughCall true (.function key) back →
          SeenWithin (fallthrough 65) fallthroughCall dataFlowMaxIterations (.function key)) ∧
        (SoleTarget (fallthrough 65) fallthroughCall dataFlowMaxIterations → ∀ found back,
          CalleeValue (fallthrough 65) fallthroughCall true found back →
            SeenWithin (fallthrough 65) fallthroughCall dataFlowMaxIterations found ∧
              ∀ key, found ≠ .location key)) := by
  intro hseen
  have hclosed := ((closedTargets_iff (fallthrough_marksUnknown 65) (by decide)
    (@fallthrough_callValues 65 dataFlowMaxIterations (by decide) (by decide))
      (by decide)).mpr hseen).1
  obtain ⟨back, hfound⟩ := @fallthrough_callee 65 (by decide)
  exact absurd (hclosed "g" back hfound) (by decide)

end CppContextEngine.Analyzer
