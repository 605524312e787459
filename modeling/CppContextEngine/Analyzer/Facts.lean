import CppContextEngine.Analyzer.PathValues

/-!
# What a state knows

The facts of a state: its definitions, its flags and the targets of its pointers,
with the flag `complete` of a pointer's value kept apart.  As long as there are
few targets, no visit takes back a fact, and with the same facts it closes the
more values, the more were closed before it.
-/

namespace CppContextEngine.Analyzer

open CppContextEngine.Foundation

/-! ## Facts -/

section Facts

variable {β : Type}

inductive Fact (β : Type) where
  /-- One of the definitions of a location, or that it has an entry for them. -/
  | definition (location : String) (source : Option (AccessKey β))
  /-- That the flag of a location has an entry, or that it is set. -/
  | flag (location : String) (set : Bool)
  /-- One of the targets of a location, or that it has an entry for them. -/
  | target (location : String) (found : Option PathValue)

def DataFlowState.Knows (state : DataFlowState β) : Fact β → Prop
  | .definition location none => ∃ definitions, state.definitions[location]? = some definitions
  | .definition location (some source) => source ∈ state.definitionsOf location
  | .flag location false => ∃ complete, state.definitionsComplete[location]? = some complete
  | .flag location true => state.isComplete location = true
  | .target location none => ∃ value, state.pointsTo[location]? = some value
  | .target location (some found) =>
      ∃ value, state.pointsTo[location]? = some value ∧ value.Has found

/-- The value of a location is complete. -/
def DataFlowState.Closes (state : DataFlowState β) (location : String) : Prop :=
  ∃ value, state.pointsTo[location]? = some value ∧ value.complete = true

/-- Every fact of the first state is one of the second. -/
def Below (first second : DataFlowState β) : Prop :=
  ∀ fact, first.Knows fact → second.Knows fact

theorem Below.trans {first second third : DataFlowState β} (hfirst : Below first second)
    (hsecond : Below second third) : Below first third :=
  fun fact h => hsecond fact (hfirst fact h)

theorem Below.pointsTo {first second : DataFlowState β} (h : Below first second) {location : String}
    {value : PointsToValue} (hvalue : first.pointsTo[location]? = some value) :
    ∃ other, second.pointsTo[location]? = some other ∧
      ∀ found, value.Has found → other.Has found := by
  obtain ⟨other, hother⟩ := h (.target location none) ⟨value, hvalue⟩
  refine ⟨other, hother, fun found hfound => ?_⟩
  obtain ⟨known, hknown, hhas⟩ := h (.target location (some found)) ⟨value, hvalue, hfound⟩
  rw [hother] at hknown
  cases hknown
  exact hhas

theorem pointsToValue_eq {first second : PointsToValue}
    (h : ∀ found, first.Has found ↔ second.Has found)
    (hcomplete : first.complete = true ↔ second.complete = true) : first = second := by
  have hfunctions : first.functions = second.functions := by
    ext key
    exact h (.function key)
  have hlocations : first.locations = second.locations := by
    ext key
    exact h (.location key)
  have hnull : first.includesNull = second.includesNull := Bool.eq_iff_iff.mpr (h .null)
  have hclosed : first.complete = second.complete := Bool.eq_iff_iff.mpr hcomplete
  cases first
  cases second
  simp_all

theorem table_eq {γ : Type} {first second : Table γ}
    (hkeys : ∀ key : String, (∃ value, first[key]? = some value) ↔ ∃ value, second[key]? = some value)
    (hvalues : ∀ (key : String) (value other : γ), first[key]? = some value →
      second[key]? = some other → value = other) : first = second := by
  apply Std.ExtTreeMap.ext_getElem?
  intro key
  cases hfirst : first[key]? with
  | none =>
      cases hsecond : second[key]? with
      | none => rfl
      | some other =>
          obtain ⟨value, hvalue⟩ := (hkeys key).mpr ⟨other, hsecond⟩
          rw [hfirst] at hvalue
          cases hvalue
  | some value =>
      obtain ⟨other, hother⟩ := (hkeys key).mp ⟨value, hfirst⟩
      rw [hother, hvalues key value other hfirst hother]

/-- A state is made of its facts and of what it closes. -/
theorem state_eq {first second : DataFlowState β} (hbelow : Below first second)
    (habove : Below second first) (hcloses : ∀ location, first.Closes location ↔
      second.Closes location) : first = second := by
  have hknows (fact : Fact β) : first.Knows fact ↔ second.Knows fact :=
    ⟨hbelow fact, habove fact⟩
  have hdefinitions : first.definitions = second.definitions := by
    apply table_eq fun location => hknows (.definition location none)
    intro location value other hvalue hother
    ext source
    have hsource := hknows (.definition location (some source))
    simpa [DataFlowState.Knows, DataFlowState.definitionsOf, hvalue, hother] using hsource
  have hflags : first.definitionsComplete = second.definitionsComplete := by
    apply table_eq fun location => hknows (.flag location false)
    intro location value other hvalue hother
    have hset := hknows (.flag location true)
    apply Bool.eq_iff_iff.mpr
    simpa [DataFlowState.Knows, DataFlowState.isComplete, hvalue, hother] using hset
  have hpoints : first.pointsTo = second.pointsTo := by
    apply table_eq fun location => hknows (.target location none)
    intro location value other hvalue hother
    have hclosed := hcloses location
    simp only [DataFlowState.Closes, hvalue, hother, Option.some.injEq, exists_eq_left'] at hclosed
    refine pointsToValue_eq (fun found => ?_) hclosed
    have hfound := hknows (.target location (some found))
    simpa [DataFlowState.Knows, hvalue, hother] using hfound
  cases first
  cases second
  simp_all

end Facts

/-! ## Few targets -/

section Targets

variable {β : Type} (graph : FlowGraph β)

/-- The points-to values of a location are followed. -/
def Tracks (location : String) : Prop :=
  ∃ known, graph.locations[location]? = some known ∧ known.tracksPointsTo = true

/-- The targets of an expression are among the given ones, and what it takes for plain storage is
not followed. -/
def PointerExpr.Mentions (functions locations : Finset String) : PointerExpr → Prop
  | function key => key ∈ functions
  | value location tracked => tracked = false → location ∈ locations ∧ ¬ Tracks graph location
  | addressOf location => location ∈ locations
  | conditional whenTrue whenFalse =>
      whenTrue.Mentions functions locations ∧ whenFalse.Mentions functions locations
  | memberPointer member => member.Mentions functions locations
  | null | other => True

/-- The assigned expressions mention no more targets than a points-to set can hold. -/
structure FewTargets (functions locations : Finset String) : Prop where
  few : functions.card + locations.card ≤ dataFlowMaxAliasTargets
  mentions : ∀ block ∈ graph.blocks, ∀ access ∈ graph.accesses block,
    ∀ expression ∈ access.assigned, expression.Mentions graph functions locations

def accessLocations : List String :=
  graph.blocks.flatMap fun block => (graph.accesses block).map Access.location

def accessKeys : List (AccessKey β) :=
  graph.blocks.flatMap fun block =>
    (List.range (graph.accesses block).length).map fun sequence => (block, sequence)

/-- One of the given targets, or null. -/
def PathValue.Among (functions locations : Finset String) : PathValue → Prop
  | function key => key ∈ functions
  | location key => key ∈ locations
  | null => True
  | unknown => False

/-- The facts that the accesses of the graph can make. -/
def Fact.Within (functions locations : Finset String) : Fact β → Prop
  | definition location source => location ∈ accessLocations graph ∧
      ∀ key ∈ source, key ∈ accessKeys graph
  | flag location _ => location ∈ accessLocations graph
  | target location found => location ∈ accessLocations graph ∧ Tracks graph location ∧
      ∀ value ∈ found, value.Among functions locations

theorem facts_finite (functions locations : Finset String) :
    {fact : Fact β | fact.Within graph functions locations}.Finite := by
  let values : List PathValue :=
    .null :: functions.toList.map .function ++ locations.toList.map .location
  let all : List (Fact β) := (accessLocations graph).flatMap fun location =>
    [.flag location true, .flag location false, .definition location none, .target location none] ++
      (accessKeys graph).map (fun key => .definition location (some key)) ++
      values.map fun value => .target location (some value)
  refine all.finite_toSet.subset fun fact hfact => ?_
  simp only [Set.mem_ofPred_eq] at hfact ⊢
  apply List.mem_flatMap.mpr
  cases fact with
  | definition location source =>
      refine ⟨location, hfact.1, ?_⟩
      cases source with
      | none => simp
      | some key => simp [hfact.2 key rfl]
  | flag location set => exact ⟨location, hfact, by cases set <;> simp⟩
  | target location found =>
      refine ⟨location, hfact.1, ?_⟩
      cases found with
      | none => simp
      | some value =>
          have hamong := hfact.2.2 value rfl
          cases value <;> simp_all [values, PathValue.Among]

variable {graph} {functions locations : Finset String}

theorem capPointsTo_of_among {value : PointsToValue}
    (hfew : functions.card + locations.card ≤ dataFlowMaxAliasTargets)
    (hamong : ∀ found, value.Has found → found.Among functions locations) :
    capPointsTo value = value := by
  have hfunctions : value.functions ⊆ functions := fun key hkey => hamong (.function key) hkey
  have hlocations : value.locations ⊆ locations := fun key hkey => hamong (.location key) hkey
  have hcard := Nat.add_le_add (Finset.card_le_card hfunctions) (Finset.card_le_card hlocations)
  unfold capPointsTo
  rw [if_pos (hcard.trans hfew)]

/-- All facts of a state are such facts. -/
def Bounded (graph : FlowGraph β) (functions locations : Finset String)
    (state : DataFlowState β) : Prop :=
  ∀ fact, state.Knows fact → fact.Within graph functions locations

theorem Bounded.of_below {first second : DataFlowState β} (h : Below first second)
    (hbounded : Bounded graph functions locations second) :
    Bounded graph functions locations first := fun fact hfact => hbounded fact (h fact hfact)

theorem Bounded.value {state : DataFlowState β} (h : Bounded graph functions locations state)
    {location : String} {value : PointsToValue} (hvalue : state.pointsTo[location]? = some value) :
    Tracks graph location ∧ ∀ found, value.Has found → found.Among functions locations :=
  ⟨(h (.target location none) ⟨value, hvalue⟩).2.1, fun found hfound =>
    (h (.target location (some found)) ⟨value, hvalue, hfound⟩).2.2 found rfl⟩

variable {state first second : DataFlowState β} {expression : PointerExpr}

theorem evaluatePointsTo_among (h : Bounded graph functions locations state)
    (hmentions : expression.Mentions graph functions locations) {found : PathValue}
    (hfound : (evaluatePointsTo graph state.pointsTo expression).Has found) :
    found.Among functions locations := by
  induction expression with
  | function key =>
      cases found <;> simp_all [evaluatePointsTo, PointsToValue.Has, PathValue.Among,
        PointerExpr.Mentions]
  | value location tracked =>
      unfold evaluatePointsTo at hfound
      cases hget : state.pointsTo[location]? with
      | some value =>
          rw [hget] at hfound
          exact (h.value hget).2 found hfound
      | none =>
          rw [hget] at hfound
          cases tracked <;> cases found <;> simp_all [PointsToValue.Has, unknownValue,
            PathValue.Among, PointerExpr.Mentions]
  | addressOf location =>
      cases found <;> simp_all [evaluatePointsTo, PointsToValue.Has, PathValue.Among,
        PointerExpr.Mentions]
  | conditional whenTrue whenFalse ihTrue ihFalse =>
      have hjoined := has_of_capPointsTo hfound
      have hbranch : (evaluatePointsTo graph state.pointsTo whenTrue).Has found ∨
          (evaluatePointsTo graph state.pointsTo whenFalse).Has found := by
        cases found <;> simp_all [PointsToValue.Has]
      exact hbranch.elim (ihTrue hmentions.1) (ihFalse hmentions.2)
  | memberPointer member ih => exact ih hmentions hfound
  | null => cases found <;> simp_all [evaluatePointsTo, PointsToValue.Has, PathValue.Among]
  | other => cases found <;> simp_all [evaluatePointsTo, PointsToValue.Has, unknownValue]

/-- A conditional has the targets of both branches, and is complete if both are. -/
theorem evaluatePointsTo_conditional
    (hfew : functions.card + locations.card ≤ dataFlowMaxAliasTargets)
    (h : Bounded graph functions locations state) {whenTrue whenFalse : PointerExpr}
    (hmentions : (PointerExpr.conditional whenTrue whenFalse).Mentions graph functions locations) :
    (∀ found, (evaluatePointsTo graph state.pointsTo (.conditional whenTrue whenFalse)).Has found ↔
      (evaluatePointsTo graph state.pointsTo whenTrue).Has found ∨
        (evaluatePointsTo graph state.pointsTo whenFalse).Has found) ∧
    ((evaluatePointsTo graph state.pointsTo (.conditional whenTrue whenFalse)).complete = true ↔
      (evaluatePointsTo graph state.pointsTo whenTrue).complete = true ∧
        (evaluatePointsTo graph state.pointsTo whenFalse).complete = true) := by
  rw [evaluatePointsTo]
  rw [capPointsTo_of_among hfew]
  · constructor
    · intro found
      cases found <;> simp [PointsToValue.Has]
    · simp
  · intro found hfound
    have hbranch : (evaluatePointsTo graph state.pointsTo whenTrue).Has found ∨
        (evaluatePointsTo graph state.pointsTo whenFalse).Has found := by
      cases found <;> simp_all [PointsToValue.Has]
    exact hbranch.elim (evaluatePointsTo_among h hmentions.1) (evaluatePointsTo_among h hmentions.2)

/-- More facts give an expression more targets. -/
theorem evaluatePointsTo_below
    (hfew : functions.card + locations.card ≤ dataFlowMaxAliasTargets)
    (hbounded : Bounded graph functions locations second) (h : Below first second)
    (hmentions : expression.Mentions graph functions locations) {found : PathValue}
    (hfound : (evaluatePointsTo graph first.pointsTo expression).Has found) :
    (evaluatePointsTo graph second.pointsTo expression).Has found := by
  induction expression with
  | value location tracked =>
      unfold evaluatePointsTo at hfound ⊢
      cases hget : first.pointsTo[location]? with
      | some value =>
          rw [hget] at hfound
          obtain ⟨other, hother, hhas⟩ := h.pointsTo hget
          rw [hother]
          exact hhas found hfound
      | none =>
          rw [hget] at hfound
          cases tracked with
          | true => cases found <;> simp [PointsToValue.Has, unknownValue] at hfound
          | false =>
              cases hsecond : second.pointsTo[location]? with
              | none => exact hfound
              | some other => exact absurd (hbounded.value hsecond).1 (hmentions rfl).2
  | conditional whenTrue whenFalse ihTrue ihFalse =>
      rw [(evaluatePointsTo_conditional hfew (hbounded.of_below h) hmentions).1] at hfound
      rw [(evaluatePointsTo_conditional hfew hbounded hmentions).1]
      exact hfound.imp (ihTrue hmentions.1) (ihFalse hmentions.2)
  | memberPointer member ih => exact ih hmentions hfound
  | function | addressOf | null | other => exact hfound

/-- With the same facts, an expression is complete if its values were closed. -/
theorem evaluatePointsTo_closes
    (hfew : functions.card + locations.card ≤ dataFlowMaxAliasTargets)
    (hbounded : Bounded graph functions locations second) (hbelow : Below first second)
    (habove : Below second first) (hcloses : ∀ location, first.Closes location →
      second.Closes location) (hmentions : expression.Mentions graph functions locations)
    (hcomplete : (evaluatePointsTo graph first.pointsTo expression).complete = true) :
    (evaluatePointsTo graph second.pointsTo expression).complete = true := by
  induction expression with
  | value location tracked =>
      unfold evaluatePointsTo at hcomplete ⊢
      cases hget : first.pointsTo[location]? with
      | some value =>
          rw [hget] at hcomplete
          obtain ⟨other, hother, hclosed⟩ := hcloses location ⟨value, hget, hcomplete⟩
          rw [hother]
          exact hclosed
      | none =>
          rw [hget] at hcomplete
          cases hsecond : second.pointsTo[location]? with
          | none => exact hcomplete
          | some other =>
              obtain ⟨value, hvalue, -⟩ := habove.pointsTo hsecond
              rw [hget] at hvalue
              cases hvalue
  | conditional whenTrue whenFalse ihTrue ihFalse =>
      rw [(evaluatePointsTo_conditional hfew (hbounded.of_below hbelow) hmentions).2] at hcomplete
      rw [(evaluatePointsTo_conditional hfew hbounded hmentions).2]
      exact hcomplete.imp (ihTrue hmentions.1) (ihFalse hmentions.2)
  | memberPointer member ih => exact ih hmentions hcomplete
  | function | addressOf | null | other => exact hcomplete

end Targets

/-! ## Transfer -/

section Transfer

variable {β : Type} {graph : FlowGraph β} {block : β} {state first second : DataFlowState β}
variable {functions locations : Finset String} {access : Access} {sequence : Nat}

/-- The access defines the location, and its evidence is kept. -/
def writes (graph : FlowGraph β) (access : Access) (location : String) : Bool :=
  access.kind.isDefinition && !graph.navigationOnly && access.location = location

/-- The access binds the location's pointer. -/
def points (graph : FlowGraph β) (access : Access) (location : String) : Bool :=
  access.kind.isDefinition && bindsPointer graph access && access.location = location

theorem definitions_applyAccess (graph : FlowGraph β) (block : β) (state : DataFlowState β)
    (access : Access) (sequence : Nat) (location : String) :
    (applyAccess graph block state (access, sequence)).definitions[location]? =
        (if writes graph access location then some {(block, sequence)}
          else state.definitions[location]?) ∧
      (applyAccess graph block state (access, sequence)).definitionsComplete[location]? =
        if writes graph access location then some true
          else state.definitionsComplete[location]? := by
  unfold applyAccess writes
  by_cases hkind : access.kind.isDefinition = true
  · by_cases hfull : graph.navigationOnly = true
    · simp [hkind, hfull]
    · by_cases hlocation : access.location = location <;> simp [hkind, hfull, hlocation]
  · simp [hkind]

theorem pointsTo_applyAccess_get (location : String) :
    (applyAccess graph block state (access, sequence)).pointsTo[location]? =
      if points graph access location then some (assignedValue graph state.pointsTo access)
      else state.pointsTo[location]? := by
  rw [pointsTo_applyAccess]
  unfold points
  by_cases hbinds : (access.kind.isDefinition && bindsPointer graph access) = true
  · by_cases hlocation : access.location = location <;> simp [hbinds, hlocation]
  · simp [hbinds]

theorem knows_definition_applyAccess {location : String} {source : Option (AccessKey β)} :
    (applyAccess graph block state (access, sequence)).Knows (.definition location source) ↔
      if writes graph access location then ∀ key ∈ source, key = (block, sequence)
      else state.Knows (.definition location source) := by
  have hget := (definitions_applyAccess graph block state access sequence location).1
  cases source <;> simp only [DataFlowState.Knows, DataFlowState.definitionsOf, hget] <;>
    split <;> simp

theorem knows_flag_applyAccess {location : String} {set : Bool} :
    (applyAccess graph block state (access, sequence)).Knows (.flag location set) ↔
      if writes graph access location then True else state.Knows (.flag location set) := by
  have hget := (definitions_applyAccess graph block state access sequence location).2
  cases set <;> simp only [DataFlowState.Knows, DataFlowState.isComplete, hget] <;>
    split <;> simp

theorem knows_target_applyAccess {location : String} {found : Option PathValue} :
    (applyAccess graph block state (access, sequence)).Knows (.target location found) ↔
      if points graph access location then
        ∀ value ∈ found, (assignedValue graph state.pointsTo access).Has value
      else state.Knows (.target location found) := by
  cases found <;> simp only [DataFlowState.Knows, pointsTo_applyAccess_get] <;> split <;> simp

theorem closes_applyAccess {location : String} :
    (applyAccess graph block state (access, sequence)).Closes location ↔
      if points graph access location then
        (assignedValue graph state.pointsTo access).complete = true
      else state.Closes location := by
  simp only [DataFlowState.Closes, pointsTo_applyAccess_get]
  split <;> simp

theorem assignedValue_below (hfew : FewTargets graph functions locations)
    (hblock : block ∈ graph.blocks) (haccess : access ∈ graph.accesses block)
    (hbounded : Bounded graph functions locations second) (h : Below first second)
    {found : PathValue} (hfound : (assignedValue graph first.pointsTo access).Has found) :
    (assignedValue graph second.pointsTo access).Has found ∧ found.Among functions locations := by
  have hmentions := hfew.mentions block hblock access haccess
  unfold assignedValue at hfound ⊢
  cases hassigned : access.assigned with
  | none =>
      rw [hassigned] at hfound
      cases found <;> simp [PointsToValue.Has] at hfound
  | some expression =>
      rw [hassigned] at hfound
      have hexpression := hmentions expression hassigned
      exact ⟨evaluatePointsTo_below hfew.few hbounded h hexpression hfound,
        evaluatePointsTo_among (hbounded.of_below h) hexpression hfound⟩

theorem applyAccess_below (hfew : FewTargets graph functions locations)
    (hblock : block ∈ graph.blocks) (haccess : access ∈ graph.accesses block)
    (hbounded : Bounded graph functions locations second) (h : Below first second) :
    Below (applyAccess graph block first (access, sequence))
      (applyAccess graph block second (access, sequence)) := by
  intro fact hfact
  cases fact with
  | definition location source =>
      rw [knows_definition_applyAccess] at hfact ⊢
      by_cases hwrites : writes graph access location = true
      · rw [if_pos hwrites] at hfact ⊢
        exact hfact
      · rw [if_neg hwrites] at hfact ⊢
        exact h _ hfact
  | flag location set =>
      rw [knows_flag_applyAccess] at hfact ⊢
      by_cases hwrites : writes graph access location = true
      · rw [if_pos hwrites]
        trivial
      · rw [if_neg hwrites] at hfact ⊢
        exact h _ hfact
  | target location found =>
      rw [knows_target_applyAccess] at hfact ⊢
      by_cases hpoints : points graph access location = true
      · rw [if_pos hpoints] at hfact ⊢
        exact fun value hvalue =>
          (assignedValue_below hfew hblock haccess hbounded h (hfact value hvalue)).1
      · rw [if_neg hpoints] at hfact ⊢
        exact h _ hfact

theorem applyAccess_bounded (hfew : FewTargets graph functions locations)
    (hblock : block ∈ graph.blocks) (haccess : (graph.accesses block)[sequence]? = some access)
    (h : Bounded graph functions locations state) :
    Bounded graph functions locations (applyAccess graph block state (access, sequence)) := by
  have hmem := List.mem_of_getElem? haccess
  have hlocation : access.location ∈ accessLocations graph :=
    List.mem_flatMap.mpr ⟨block, hblock, List.mem_map_of_mem hmem⟩
  intro fact hfact
  cases fact with
  | definition location source =>
      rw [knows_definition_applyAccess] at hfact
      split at hfact
      · rename_i hwrites
        simp only [writes, Bool.and_eq_true, decide_eq_true_eq] at hwrites
        refine ⟨hwrites.2 ▸ hlocation, fun key hkey => ?_⟩
        rw [hfact key hkey]
        have hsequence := (List.getElem?_eq_some_iff.mp haccess).1
        exact List.mem_flatMap.mpr
          ⟨block, hblock, List.mem_map.mpr ⟨sequence, List.mem_range.mpr hsequence, rfl⟩⟩
      · exact h _ hfact
  | flag location set =>
      rw [knows_flag_applyAccess] at hfact
      split at hfact
      · rename_i hwrites
        simp only [writes, Bool.and_eq_true, decide_eq_true_eq] at hwrites
        exact (hwrites.2 ▸ hlocation : location ∈ accessLocations graph)
      · exact h _ hfact
  | target location found =>
      rw [knows_target_applyAccess] at hfact
      split at hfact
      · rename_i hpoints
        simp only [points, Bool.and_eq_true, decide_eq_true_eq] at hpoints
        refine ⟨hpoints.2 ▸ hlocation, ?_, fun value hvalue =>
          (assignedValue_below hfew hblock hmem h (fun _ => id) (hfact value hvalue)).2⟩
        have hbinds := hpoints.1.2
        unfold bindsPointer at hbinds
        rw [hpoints.2] at hbinds
        split at hbinds
        · rename_i known hknown
          exact ⟨known, hknown, (Bool.and_eq_true_iff.mp hbinds).1⟩
        · cases hbinds
      · exact h _ hfact

/-- The values that an access closes. -/
theorem applyAccess_closes (hfew : FewTargets graph functions locations)
    (hblock : block ∈ graph.blocks) (haccess : access ∈ graph.accesses block)
    (hbounded : Bounded graph functions locations second) (hbelow : Below first second)
    (habove : Below second first)
    (hcloses : ∀ location, first.Closes location → second.Closes location) (location : String)
    (h : (applyAccess graph block first (access, sequence)).Closes location) :
    (applyAccess graph block second (access, sequence)).Closes location := by
  rw [closes_applyAccess] at h ⊢
  by_cases hpoints : points graph access location = true
  · rw [if_pos hpoints] at h ⊢
    have hmentions := hfew.mentions block hblock access haccess
    unfold assignedValue at h ⊢
    cases hassigned : access.assigned with
    | none =>
        rw [hassigned] at h
        exact h
    | some expression =>
        rw [hassigned] at h
        exact evaluatePointsTo_closes hfew.few hbounded hbelow habove hcloses
          (hmentions expression hassigned) h
  · rw [if_neg hpoints] at h ⊢
    exact hcloses location h

/-- What the transfer of a block keeps: the bounds, the order of the facts and, with the same
facts, the order of what is closed. -/
theorem transfer_below (hfew : FewTargets graph functions locations) (hblock : block ∈ graph.blocks)
    (hbounded : Bounded graph functions locations second) (h : Below first second) :
    Bounded graph functions locations (transfer graph block second) ∧
      Below (transfer graph block first) (transfer graph block second) ∧
      (Below second first → (∀ location, first.Closes location → second.Closes location) →
        Below (transfer graph block second) (transfer graph block first) ∧
          ∀ location, (transfer graph block first).Closes location →
            (transfer graph block second).Closes location) := by
  rw [transfer_eq_stateAt, transfer_eq_stateAt]
  suffices hcount : ∀ count ≤ (graph.accesses block).length,
      Bounded graph functions locations (stateAt graph block second count) ∧
        Below (stateAt graph block first count) (stateAt graph block second count) ∧
        (Below second first → (∀ location, first.Closes location → second.Closes location) →
          Below (stateAt graph block second count) (stateAt graph block first count) ∧
            ∀ location, (stateAt graph block first count).Closes location →
              (stateAt graph block second count).Closes location) from hcount _ le_rfl
  intro count
  induction count with
  | zero =>
      intro _
      rw [stateAt_zero, stateAt_zero]
      exact ⟨hbounded, h, fun habove hcloses => ⟨habove, hcloses⟩⟩
  | succ count ih =>
      intro hcount
      have haccess : (graph.accesses block)[count]? = some (graph.accesses block)[count] :=
        List.getElem?_eq_getElem hcount
      have hmem := List.mem_of_getElem? haccess
      obtain ⟨hbounded, hbelow, hrest⟩ := ih (by omega)
      rw [stateAt_succ haccess, stateAt_succ haccess]
      refine ⟨applyAccess_bounded hfew hblock haccess hbounded,
        applyAccess_below hfew hblock hmem hbounded hbelow, fun habove hcloses => ?_⟩
      obtain ⟨habove, hcloses⟩ := hrest habove hcloses
      exact ⟨applyAccess_below hfew hblock hmem (hbounded.of_below hbelow) habove,
        applyAccess_closes hfew hblock hmem hbounded hbelow habove hcloses⟩

end Transfer

end CppContextEngine.Analyzer
