import Mathlib.Tactic.IntervalCases
import CppContextEngine.Analyzer.Facts
import CppContextEngine.Foundation.Stabilize

/-!
# When the sweeps settle

The facts of the blocks only grow and settle, in every order of the blocks, to
those of the least solutions.  What is then still moving are the flags
`complete`: a flag can go round in a cycle for ever, unless the flags that have
all of the cycle set and those that have none of it set settle to the same.
-/

namespace CppContextEngine.Analyzer

open CppContextEngine.Foundation

/-! ## Joins -/

section Join

variable {β : Type} {graph : FlowGraph β} {functions locations : Finset String}
variable {states : List (DataFlowState β)} {incoming : Nat} {location : String}

theorem hasKey_tabulate {γ : Type} {keys : List String} {make : String → γ} {key : String} :
    (∃ value, (tabulate keys make)[key]? = some value) ↔ key ∈ keys := by
  rw [getElem?_tabulate]
  split <;> simp_all

theorem joinPointsTo_eq (hfew : functions.card + locations.card ≤ dataFlowMaxAliasTargets)
    (hbounded : ∀ state ∈ states, Bounded graph functions locations state) :
    joinPointsTo states location =
      (states.map fun state => state.pointsTo[location]?).foldl mergePointsTo {} := by
  unfold joinPointsTo
  apply capPointsTo_of_among hfew
  intro found hfound
  rw [mergePointsTo_has] at hfound
  rcases hfound with hempty | ⟨value, hvalue, hhas⟩
  · cases found <;> simp [PointsToValue.Has] at hempty
  · obtain ⟨state, hstate, hget⟩ := List.mem_map.mp hvalue
    exact ((hbounded state hstate).value hget).2 found hhas

variable [DecidableEq β]

theorem knows_definition_join {source : Option (AccessKey β)} :
    (joinStates false states incoming).Knows (.definition location source) ↔
      ∃ state ∈ states, state.Knows (.definition location source) := by
  cases source with
  | some source => exact definitionsOf_joinStates
  | none =>
      unfold joinStates DataFlowState.Knows
      simp only [Bool.false_eq_true, ↓reduceIte, hasKey_tabulate, List.mem_flatMap,
        Table.mem_keys_iff]

theorem knows_flag_join : (joinStates false states incoming).Knows (.flag location false) ↔
    ∃ state ∈ states, state.Knows (.definition location none) ∨
      state.Knows (.flag location false) := by
  unfold joinStates DataFlowState.Knows
  simp only [Bool.false_eq_true, ↓reduceIte, hasKey_tabulate, List.mem_append, List.mem_flatMap,
    Table.mem_keys_iff, ← exists_or, ← and_or_left]

theorem knows_target_join {navigationOnly : Bool}
    (hfew : functions.card + locations.card ≤ dataFlowMaxAliasTargets)
    (hbounded : ∀ state ∈ states, Bounded graph functions locations state)
    {found : Option PathValue} :
    (joinStates navigationOnly states incoming).Knows (.target location found) ↔
      ∃ state ∈ states, state.Knows (.target location found) := by
  cases found with
  | none =>
      unfold joinStates DataFlowState.Knows
      simp only [hasKey_tabulate, List.mem_flatMap, Table.mem_keys_iff]
  | some found =>
      rw [DataFlowState.Knows, pointsTo_joinStates, joinPointsTo_eq hfew hbounded]
      constructor
      · rintro ⟨value, hvalue, hhas⟩
        split at hvalue
        · cases hvalue
          rw [mergePointsTo_has] at hhas
          rcases hhas with hempty | ⟨value, hvalue, hhas⟩
          · cases found <;> simp [PointsToValue.Has] at hempty
          · obtain ⟨state, hstate, hget⟩ := List.mem_map.mp hvalue
            exact ⟨state, hstate, value, hget, hhas⟩
        · cases hvalue
      · rintro ⟨state, hstate, value, hvalue, hhas⟩
        have hkeys : location ∈ states.flatMap fun state => state.pointsTo.keys :=
          List.mem_flatMap.mpr ⟨state, hstate, Table.mem_keys_iff.mpr ⟨value, hvalue⟩⟩
        rw [if_pos hkeys]
        refine ⟨_, rfl, ?_⟩
        rw [mergePointsTo_has]
        exact .inr ⟨value, List.mem_map.mpr ⟨state, hstate, hvalue⟩, hhas⟩

/-- A join closes what every state closes. -/
theorem closes_join {navigationOnly : Bool}
    (hfew : functions.card + locations.card ≤ dataFlowMaxAliasTargets)
    (hbounded : ∀ state ∈ states, Bounded graph functions locations state) :
    (joinStates navigationOnly states incoming).Closes location ↔
      states ≠ [] ∧ ∀ state ∈ states, state.Closes location := by
  rw [DataFlowState.Closes, pointsTo_joinStates, joinPointsTo_eq hfew hbounded]
  constructor
  · rintro ⟨value, hvalue, hcomplete⟩
    split at hvalue
    · rename_i hkeys
      cases hvalue
      rw [mergePointsTo_complete] at hcomplete
      obtain ⟨state, hstate, -⟩ := List.mem_flatMap.mp hkeys
      refine ⟨List.ne_nil_of_mem hstate, fun state hstate => ?_⟩
      exact hcomplete.2 _ (List.mem_map_of_mem hstate)
    · cases hvalue
  · rintro ⟨hne, hall⟩
    obtain ⟨state, hstate⟩ := List.exists_mem_of_ne_nil states hne
    obtain ⟨value, hvalue, -⟩ := hall state hstate
    have hkeys : location ∈ states.flatMap fun state => state.pointsTo.keys :=
      List.mem_flatMap.mpr ⟨state, hstate, Table.mem_keys_iff.mpr ⟨value, hvalue⟩⟩
    rw [if_pos hkeys]
    refine ⟨_, rfl, ?_⟩
    rw [mergePointsTo_complete]
    refine ⟨rfl, fun found hfound => ?_⟩
    obtain ⟨state, hstate, rfl⟩ := List.mem_map.mp hfound
    exact hall state hstate

theorem navigation_join :
    (∀ source, ¬ (joinStates true states incoming).Knows (.definition location source)) ∧
      ∀ set, ¬ (joinStates true states incoming).Knows (.flag location set) := by
  constructor
  · intro source
    cases source <;> simp [joinStates, DataFlowState.Knows, DataFlowState.definitionsOf]
  · intro set
    cases set <;> simp [joinStates, DataFlowState.Knows, DataFlowState.isComplete]

end Join

/-! ## Values -/

section Grows

variable {β : Type}

/-- Every input of the second values knows what that of the first does. -/
def Grows (first second : Values β (BlockStates β)) : Prop :=
  ∀ block states, first block = some states →
    ∃ other, second block = some other ∧ Below states.1 other.1

/-- Every input of the second values closes what that of the first does. -/
def ClosesMore (first second : Values β (BlockStates β)) : Prop :=
  ∀ block states other, first block = some states → second block = some other →
    ∀ location, states.1.Closes location → other.1.Closes location

theorem Grows.refl (values : Values β (BlockStates β)) : Grows values values :=
  fun _ states h => ⟨states, h, fun _ => id⟩

theorem Grows.trans {first second third : Values β (BlockStates β)} (hfirst : Grows first second)
    (hsecond : Grows second third) : Grows first third := by
  intro block states hstates
  obtain ⟨other, hother, hbelow⟩ := hfirst block states hstates
  obtain ⟨last, hlast, hrest⟩ := hsecond block other hother
  exact ⟨last, hlast, hbelow.trans hrest⟩

/-- The outputs of the predecessors that were processed. -/
def outputs (graph : FlowGraph β) (values : Values β (BlockStates β)) (block : β) :
    List (DataFlowState β) :=
  (graph.predecessors block).filterMap fun previous => (values previous).map Prod.snd

/-- What is stored belongs to a block, has a bounded input and its output. -/
def Regular (graph : FlowGraph β) (functions locations : Finset String)
    (values : Values β (BlockStates β)) : Prop :=
  ∀ block states, values block = some states → block ∈ graph.blocks ∧
    Bounded graph functions locations states.1 ∧ states.2 = transfer graph block states.1

variable {graph : FlowGraph β} {functions locations : Finset String} {block : β}
variable {values first second : Values β (BlockStates β)} {location : String}

theorem mem_outputs {state : DataFlowState β} : state ∈ outputs graph values block ↔
    ∃ previous ∈ graph.predecessors block, ∃ states, values previous = some states ∧
      states.2 = state := by
  simp only [outputs, List.mem_filterMap, Option.map_eq_some_iff]

theorem Regular.outputs_bounded (hfew : FewTargets graph functions locations)
    (h : Regular graph functions locations values) :
    ∀ state ∈ outputs graph values block, Bounded graph functions locations state := by
  intro state hstate
  obtain ⟨previous, -, states, hstates, rfl⟩ := mem_outputs.mp hstate
  obtain ⟨hmem, hbounded, houtput⟩ := h previous states hstates
  rw [houtput]
  exact (transfer_below hfew hmem hbounded fun _ => id).1

theorem Grows.output (hfew : FewTargets graph functions locations)
    (hfirst : Regular graph functions locations first)
    (hsecond : Regular graph functions locations second) (h : Grows first second)
    {states : BlockStates β} (hstates : first block = some states) :
    ∃ other, second block = some other ∧ Below states.2 other.2 := by
  obtain ⟨other, hother, hbelow⟩ := h block states hstates
  obtain ⟨hmem, -, houtput⟩ := hfirst block states hstates
  obtain ⟨-, hbounded, hotherOutput⟩ := hsecond block other hother
  refine ⟨other, hother, ?_⟩
  rw [houtput, hotherOutput]
  exact (transfer_below hfew hmem hbounded hbelow).2.1

theorem Grows.outputs_knows (hfew : FewTargets graph functions locations)
    (hfirst : Regular graph functions locations first)
    (hsecond : Regular graph functions locations second) (h : Grows first second) {fact : Fact β}
    (hfact : ∃ state ∈ outputs graph first block, state.Knows fact) :
    ∃ state ∈ outputs graph second block, state.Knows fact := by
  obtain ⟨state, hstate, hknows⟩ := hfact
  obtain ⟨previous, hprevious, states, hstates, rfl⟩ := mem_outputs.mp hstate
  obtain ⟨other, hother, hbelow⟩ := h.output hfew hfirst hsecond hstates
  exact ⟨other.2, mem_outputs.mpr ⟨previous, hprevious, other, hother, rfl⟩, hbelow fact hknows⟩

variable [DecidableEq β]

theorem knows_definition_joinState {source : Option (AccessKey β)} :
    (joinState graph values block).Knows (.definition location source) ↔
      graph.navigationOnly = false ∧
        ∃ state ∈ outputs graph values block, state.Knows (.definition location source) := by
  unfold joinState
  cases hfull : graph.navigationOnly with
  | true => exact iff_of_false (navigation_join.1 source) (by simp)
  | false =>
      rw [knows_definition_join]
      exact (and_iff_right rfl).symm

theorem knows_flag_joinState : (joinState graph values block).Knows (.flag location false) ↔
    graph.navigationOnly = false ∧ ∃ state ∈ outputs graph values block,
      state.Knows (.definition location none) ∨ state.Knows (.flag location false) := by
  unfold joinState
  cases hfull : graph.navigationOnly with
  | true => exact iff_of_false (navigation_join.2 false) (by simp)
  | false =>
      rw [knows_flag_join]
      exact (and_iff_right rfl).symm

theorem knows_set_joinState : (joinState graph values block).Knows (.flag location true) ↔
    graph.navigationOnly = false ∧ graph.predecessors block ≠ [] ∧
      ∀ previous ∈ graph.predecessors block, ∃ states, values previous = some states ∧
        states.2.Knows (.flag location true) := by
  cases hfull : graph.navigationOnly with
  | true =>
      unfold joinState
      rw [hfull]
      exact iff_of_false (navigation_join.2 true) (by simp)
  | false =>
      rw [and_iff_right rfl]
      exact isComplete_joinState hfull

theorem joinState_bounded (hfew : FewTargets graph functions locations)
    (h : Regular graph functions locations values) :
    Bounded graph functions locations (joinState graph values block) := by
  have hstates : ∀ state ∈ outputs graph values block, Bounded graph functions locations state :=
    h.outputs_bounded hfew
  intro fact hfact
  cases fact with
  | target location found =>
      obtain ⟨state, hstate, hknows⟩ := (knows_target_join hfew.few hstates).mp hfact
      exact hstates state hstate _ hknows
  | definition location source =>
      obtain ⟨-, state, hstate, hknows⟩ := knows_definition_joinState.mp hfact
      exact hstates state hstate _ hknows
  | flag location set =>
      cases set with
      | true =>
          obtain ⟨-, hne, hall⟩ := knows_set_joinState.mp hfact
          obtain ⟨previous, hprevious⟩ := List.exists_mem_of_ne_nil _ hne
          obtain ⟨states, hstates', hknows⟩ := hall previous hprevious
          exact hstates _ (mem_outputs.mpr ⟨previous, hprevious, states, hstates', rfl⟩) _ hknows
      | false =>
          obtain ⟨-, state, hstate, hknows | hknows⟩ := knows_flag_joinState.mp hfact
          · exact (hstates state hstate _ hknows).1
          · exact hstates state hstate _ hknows

theorem Grows.joinState (hfew : FewTargets graph functions locations)
    (hfirst : Regular graph functions locations first)
    (hsecond : Regular graph functions locations second) (h : Grows first second) :
    Below (joinState graph first block) (joinState graph second block) := by
  intro fact hfact
  cases fact with
  | target location found =>
      apply (knows_target_join hfew.few (hsecond.outputs_bounded hfew)).mpr
      apply h.outputs_knows hfew hfirst hsecond
      exact (knows_target_join hfew.few (hfirst.outputs_bounded hfew)).mp hfact
  | definition location source =>
      rw [knows_definition_joinState] at hfact ⊢
      exact hfact.imp_right (h.outputs_knows hfew hfirst hsecond)
  | flag location set =>
      cases set with
      | true =>
          obtain ⟨hfull, hne, hall⟩ := knows_set_joinState.mp hfact
          refine knows_set_joinState.mpr ⟨hfull, hne, fun previous hprevious => ?_⟩
          obtain ⟨states, hstates, hknows⟩ := hall previous hprevious
          obtain ⟨other, hother, hbelow⟩ := h.output hfew hfirst hsecond hstates
          exact ⟨other, hother, hbelow _ hknows⟩
      | false =>
          rw [knows_flag_joinState] at hfact ⊢
          obtain ⟨hfull, state, hstate, hknows⟩ := hfact
          refine ⟨hfull, ?_⟩
          rcases hknows with hknows | hknows
          · obtain ⟨other, hother, hmore⟩ :=
              h.outputs_knows hfew hfirst hsecond ⟨state, hstate, hknows⟩
            exact ⟨other, hother, .inl hmore⟩
          · obtain ⟨other, hother, hmore⟩ :=
              h.outputs_knows hfew hfirst hsecond ⟨state, hstate, hknows⟩
            exact ⟨other, hother, .inr hmore⟩

/-- With the same facts, a join closes more when the inputs of the predecessors do. -/
theorem ClosesMore.joinState (hfew : FewTargets graph functions locations)
    (hfirst : Regular graph functions locations first)
    (hsecond : Regular graph functions locations second) (hgrows : Grows first second)
    (hback : Grows second first) (h : ClosesMore first second)
    (hcloses : (joinState graph first block).Closes location) :
    (joinState graph second block).Closes location := by
  obtain ⟨hne, hall⟩ := (closes_join hfew.few (hfirst.outputs_bounded hfew)).mp hcloses
  apply (closes_join hfew.few (hsecond.outputs_bounded hfew)).mpr
  constructor
  · obtain ⟨state, hstate⟩ := List.exists_mem_of_ne_nil _ hne
    obtain ⟨previous, hprevious, states, hstates, rfl⟩ := mem_outputs.mp hstate
    obtain ⟨other, hother, -⟩ := hgrows previous states hstates
    exact List.ne_nil_of_mem (mem_outputs.mpr ⟨previous, hprevious, other, hother, rfl⟩)
  · intro state hstate
    obtain ⟨previous, hprevious, other, hother, rfl⟩ := mem_outputs.mp hstate
    obtain ⟨states, hstates, habove⟩ := hback previous other hother
    obtain ⟨known, hknown, hbelow⟩ := hgrows previous states hstates
    rw [hother] at hknown
    cases hknown
    obtain ⟨hmem, hbounded, hotherOutput⟩ := hsecond previous other hother
    have houtput := (hfirst previous states hstates).2.2
    rw [hotherOutput]
    apply ((transfer_below hfew hmem hbounded hbelow).2.2 habove
      (h previous states other hstates hother)).2
    rw [← houtput]
    exact hall _ (mem_outputs.mpr ⟨previous, hprevious, states, hstates, rfl⟩)

/-! ## What a visit keeps -/

theorem regular_preserved (hfew : FewTargets graph functions locations) :
    Preserves (blockStates graph) graph.blocks (Regular graph functions locations) := by
  intro values block hblock hregular other states hstates
  by_cases hother : other = block
  · subst hother
    rw [Function.update_self] at hstates
    cases hstates
    exact ⟨hblock, joinState_bounded hfew hregular, rfl⟩
  · rw [Function.update_of_ne hother] at hstates
    exact hregular other states hstates

/-- Both values are regular and the second has all facts of the first. -/
def Extends (graph : FlowGraph β) (functions locations : Finset String)
    (first second : Values β (BlockStates β)) : Prop :=
  Regular graph functions locations first ∧ Regular graph functions locations second ∧
    Grows first second

/-- Both values have the same facts and the second closes more. -/
def Sharpens (graph : FlowGraph β) (functions locations : Finset String)
    (first second : Values β (BlockStates β)) : Prop :=
  Extends graph functions locations first second ∧ Grows second first ∧ ClosesMore first second

theorem extends_respected (hfew : FewTargets graph functions locations) :
    Respects (blockStates graph) graph.blocks (Extends graph functions locations) := by
  rintro first second block hblock ⟨hfirst, hsecond, hgrows⟩
  refine ⟨regular_preserved hfew first block hblock hfirst,
    regular_preserved hfew second block hblock hsecond, ?_⟩
  intro other states hstates
  by_cases hother : other = block
  · subst hother
    rw [Function.update_self] at hstates ⊢
    cases hstates
    exact ⟨_, rfl, hgrows.joinState hfew hfirst hsecond⟩
  · rw [Function.update_of_ne hother] at hstates ⊢
    exact hgrows other states hstates

theorem sharpens_respected (hfew : FewTargets graph functions locations) :
    Respects (blockStates graph) graph.blocks (Sharpens graph functions locations) := by
  rintro first second block hblock ⟨hextends, hback, hcloses⟩
  obtain ⟨hfirst, hsecond, hgrows⟩ := hextends
  refine ⟨extends_respected hfew _ _ block hblock ⟨hfirst, hsecond, hgrows⟩,
    (extends_respected hfew _ _ block hblock ⟨hsecond, hfirst, hback⟩).2.2, ?_⟩
  intro other states known hstates hknown location hclosed
  by_cases hother : other = block
  · subst hother
    rw [Function.update_self] at hstates hknown
    cases hstates
    cases hknown
    exact hcloses.joinState hfew hfirst hsecond hgrows hback hclosed
  · rw [Function.update_of_ne hother] at hstates hknown
    exact hcloses other states known hstates hknown location hclosed

omit [DecidableEq β] in
/-- Values are made of their facts and of what they close. -/
theorem Sharpens.eq (h : Sharpens graph functions locations first second)
    (hback : ClosesMore second first) : first = second := by
  obtain ⟨⟨hfirst, hsecond, hgrows⟩, hshrinks, hcloses⟩ := h
  funext block
  cases hstates : first block with
  | none =>
      cases hother : second block with
      | none => rfl
      | some other =>
          obtain ⟨states, hsome, -⟩ := hshrinks block other hother
          rw [hstates] at hsome
          cases hsome
  | some states =>
      obtain ⟨other, hother, hbelow⟩ := hgrows block states hstates
      obtain ⟨known, hknown, habove⟩ := hshrinks block other hother
      rw [hstates] at hknown
      cases hknown
      have hinput : states.1 = other.1 := by
        apply state_eq hbelow habove
        intro location
        exact ⟨hcloses block states other hstates hother location,
          hback block other states hother hstates location⟩
      have houtput : states.2 = other.2 := by
        rw [(hfirst block states hstates).2.2, (hsecond block other hother).2.2, hinput]
      rw [hother, Prod.ext hinput houtput]

end Grows

/-! ## Chains -/

section Chains

variable {β : Type} {graph : FlowGraph β} {functions locations : Finset String}
variable {values first second : Values β (BlockStates β)}

/-- The blocks that have an input, and the facts of their inputs. -/
def knownFacts (values : Values β (BlockStates β)) : Set (β × Option (Fact β)) :=
  {item | ∃ states, values item.1 = some states ∧ ∀ fact ∈ item.2, states.1.Knows fact}

/-- The locations that the inputs close. -/
def closedLocations (values : Values β (BlockStates β)) : Set (β × String) :=
  {item | ∃ states, values item.1 = some states ∧ states.1.Closes item.2}

theorem grows_iff : Grows first second ↔ knownFacts first ⊆ knownFacts second := by
  constructor
  · rintro h ⟨block, item⟩ ⟨states, hstates, hknows⟩
    obtain ⟨other, hother, hbelow⟩ := h block states hstates
    exact ⟨other, hother, fun fact hfact => hbelow fact (hknows fact hfact)⟩
  · intro h block states hstates
    obtain ⟨other, hother, -⟩ := h (show (block, none) ∈ knownFacts first from
      ⟨states, hstates, by simp⟩)
    refine ⟨other, hother, fun fact hfact => ?_⟩
    obtain ⟨known, hknown, hknows⟩ := h (show (block, some fact) ∈ knownFacts first from
      ⟨states, hstates, by simpa using hfact⟩)
    rw [hother] at hknown
    cases hknown
    exact hknows fact rfl

theorem closesMore_iff (h : Grows first second) :
    ClosesMore first second ↔ closedLocations first ⊆ closedLocations second := by
  constructor
  · rintro hcloses ⟨block, location⟩ ⟨states, hstates, hclosed⟩
    obtain ⟨other, hother, -⟩ := h block states hstates
    exact ⟨other, hother, hcloses block states other hstates hother location hclosed⟩
  · intro hsub block states other hstates hother location hclosed
    obtain ⟨known, hknown, hmore⟩ := hsub (show (block, location) ∈ closedLocations first from
      ⟨states, hstates, hclosed⟩)
    rw [hother] at hknown
    cases hknown
    exact hmore

theorem knownFacts_finite (graph : FlowGraph β) (functions locations : Finset String) :
    {item : β × Option (Fact β) | item.1 ∈ graph.blocks ∧
      ∀ fact ∈ item.2, fact.Within graph functions locations}.Finite := by
  have hfacts := (facts_finite graph functions locations).image some
  apply (graph.blocks.finite_toSet.prod (hfacts.insert none)).subset
  rintro ⟨block, item⟩ ⟨hblock, hitem⟩
  refine ⟨hblock, ?_⟩
  cases item with
  | none => exact .inl rfl
  | some fact => exact .inr ⟨fact, hitem fact rfl, rfl⟩

theorem closedLocations_finite (graph : FlowGraph β) :
    {item : β × String | item.1 ∈ graph.blocks ∧ item.2 ∈ accessLocations graph}.Finite :=
  (graph.blocks.finite_toSet.prod (accessLocations graph).finite_toSet).subset fun _ h => h

theorem Regular.knownFacts (h : Regular graph functions locations values) :
    knownFacts values ⊆ {item | item.1 ∈ graph.blocks ∧
      ∀ fact ∈ item.2, fact.Within graph functions locations} := by
  rintro ⟨block, item⟩ ⟨states, hstates, hknows⟩
  obtain ⟨hblock, hbounded, -⟩ := h block states hstates
  exact ⟨hblock, fun fact hfact => hbounded fact (hknows fact hfact)⟩

theorem Regular.closedLocations (h : Regular graph functions locations values) :
    closedLocations values ⊆
      {item | item.1 ∈ graph.blocks ∧ item.2 ∈ accessLocations graph} := by
  rintro ⟨block, location⟩ ⟨states, hstates, value, hvalue, -⟩
  obtain ⟨hblock, hbounded, -⟩ := h block states hstates
  exact ⟨hblock, (hbounded (.target location none) ⟨value, hvalue⟩).1⟩

/-- The same inputs with all flags `complete` set, or all of them cleared. -/
def DataFlowState.setFlags (flag : Bool) (state : DataFlowState β) : DataFlowState β :=
  { state with pointsTo := state.pointsTo.map fun _ value => { value with complete := flag } }

def withFlags (graph : FlowGraph β) (flag : Bool) (values : Values β (BlockStates β)) :
    Values β (BlockStates β) := fun block =>
  (values block).map fun states =>
    (states.1.setFlags flag, transfer graph block (states.1.setFlags flag))

theorem pointsTo_setFlags (flag : Bool) (state : DataFlowState β) (location : String) :
    (state.setFlags flag).pointsTo[location]? =
      (state.pointsTo[location]?).map fun value => { value with complete := flag } := by
  simp [DataFlowState.setFlags]

theorem knows_setFlags {flag : Bool} {state : DataFlowState β} {fact : Fact β} :
    (state.setFlags flag).Knows fact ↔ state.Knows fact := by
  cases fact with
  | definition location source => cases source <;> exact Iff.rfl
  | flag location set => cases set <;> exact Iff.rfl
  | target location found =>
      cases found with
      | none => simp [DataFlowState.Knows, pointsTo_setFlags]
      | some found =>
          cases found <;> simp [DataFlowState.Knows, pointsTo_setFlags, PointsToValue.Has]

theorem closes_setFlags {flag : Bool} {state : DataFlowState β} {location : String} :
    (state.setFlags flag).Closes location ↔
      flag = true ∧ state.Knows (.target location none) := by
  simp [DataFlowState.Closes, DataFlowState.Knows, pointsTo_setFlags, and_comm]

theorem grows_withFlags (flag : Bool) :
    Grows values (withFlags graph flag values) ∧ Grows (withFlags graph flag values) values := by
  constructor
  · intro block states hstates
    refine ⟨_, by rw [withFlags, hstates]; rfl, fun fact => knows_setFlags.mpr⟩
  · intro block states hstates
    obtain ⟨other, hother, rfl⟩ := Option.map_eq_some_iff.mp hstates
    exact ⟨other, hother, fun fact => knows_setFlags.mp⟩

theorem Regular.withFlags (h : Regular graph functions locations values) (flag : Bool) :
    Regular graph functions locations (withFlags graph flag values) := by
  intro block states hstates
  obtain ⟨other, hother, rfl⟩ := Option.map_eq_some_iff.mp hstates
  obtain ⟨hblock, hbounded, -⟩ := h block other hother
  exact ⟨hblock, hbounded.of_below fun fact => knows_setFlags.mp, rfl⟩

theorem closesMore_cleared : ClosesMore (withFlags graph false values) second := by
  intro block states other hstates _ location hclosed
  obtain ⟨known, -, rfl⟩ := Option.map_eq_some_iff.mp hstates
  exact absurd (closes_setFlags.mp hclosed).1 (by simp)

theorem closesMore_set (h : Grows first values) :
    ClosesMore first (withFlags graph true values) := by
  intro block states other hstates hother location hclosed
  obtain ⟨known, hknown, rfl⟩ := Option.map_eq_some_iff.mp hother
  obtain ⟨same, hsame, hbelow⟩ := h block states hstates
  rw [hknown] at hsame
  cases hsame
  obtain ⟨value, hvalue, -⟩ := hclosed
  exact closes_setFlags.mpr ⟨rfl, hbelow (.target location none) ⟨value, hvalue⟩⟩

end Chains

/-! ## Runs -/

section Runs

variable {β : Type} [DecidableEq β] {graph : FlowGraph β} {functions locations : Finset String}
variable {values first second : Values β (BlockStates β)} {order : List β}

/-- The values after as many sweeps over the blocks in the given order. -/
def sweeps (graph : FlowGraph β) (order : List β) (count : Nat) : Values β (BlockStates β) :=
  (sweepOnce (blockStates graph) order)^[count] fun _ => none

/-- Values that solve the equations of the blocks and have no fact that others can do without. -/
structure LeastSolution (graph : FlowGraph β) (functions locations : Finset String)
    (values : Values β (BlockStates β)) : Prop where
  stable : Stable (blockStates graph) graph.blocks values
  regular : Regular graph functions locations values
  least : ∀ other, Stable (blockStates graph) graph.blocks other →
    Regular graph functions locations other → Grows values other

theorem Preserves.of_perm {P : Values β (BlockStates β) → Prop}
    (h : Preserves (blockStates graph) graph.blocks P) (horder : order.Perm graph.blocks) :
    Preserves (blockStates graph) order P :=
  fun values block hblock => h values block (horder.mem_iff.mp hblock)

theorem Respects.of_perm {R : Values β (BlockStates β) → Values β (BlockStates β) → Prop}
    (h : Respects (blockStates graph) graph.blocks R) (horder : order.Perm graph.blocks) :
    Respects (blockStates graph) order R :=
  fun first second block hblock => h first second block (horder.mem_iff.mp hblock)

theorem Stable.of_perm {other : List β} (h : Stable (blockStates graph) other values)
    (horder : order.Perm other) : Stable (blockStates graph) order values :=
  fun block hblock => h block (horder.mem_iff.mp hblock)

omit [DecidableEq β] in
theorem extends_none (hregular : Regular graph functions locations values) :
    Extends graph functions locations (fun _ => none) values := by
  refine ⟨?_, hregular, ?_⟩
  · intro block states hstates
    cases hstates
  · intro block states hstates
    cases hstates

theorem Extends.sweepOnce (hfew : FewTargets graph functions locations)
    (horder : order.Perm graph.blocks) (h : Extends graph functions locations first second) :
    Extends graph functions locations (sweepOnce (blockStates graph) order first)
      (sweepOnce (blockStates graph) order second) :=
  sweepOnce_respects (Respects.of_perm (extends_respected hfew) horder) h

theorem regular_sweepOnce (hfew : FewTargets graph functions locations)
    (horder : order.Perm graph.blocks) (h : Regular graph functions locations values) :
    Regular graph functions locations (sweepOnce (blockStates graph) order values) :=
  sweep_invariant (Preserves.of_perm (regular_preserved hfew) horder) h

/-- The facts are below those of every solution. -/
theorem sweeps_below (hfew : FewTargets graph functions locations)
    (horder : order.Perm graph.blocks)
    (hstable : Stable (blockStates graph) graph.blocks values)
    (hregular : Regular graph functions locations values) (count : Nat) :
    Grows (sweeps graph order count) values := by
  have hrun := sweeps_respect (Respects.of_perm (extends_respected hfew) horder)
    (extends_none hregular) count
  rw [sweepOnce_of_stable (Stable.of_perm hstable horder)] at hrun
  exact hrun.2.2

/-- After enough sweeps, the facts are what they stay. -/
theorem facts_settle (hfew : FewTargets graph functions locations)
    (horder : order.Perm graph.blocks) :
    ∃ enough, Extends graph functions locations (sweeps graph order enough)
        (sweepOnce (blockStates graph) order (sweeps graph order enough)) ∧
      Grows (sweepOnce (blockStates graph) order (sweeps graph order enough))
        (sweeps graph order enough) := by
  have hnone : Regular graph functions locations fun _ => none := fun _ _ h => by cases h
  have hchain (count : Nat) : Extends graph functions locations (sweeps graph order count)
      (sweeps graph order (count + 1)) :=
    sweeps_respect (Respects.of_perm (extends_respected hfew) horder)
      (extends_none (regular_sweepOnce hfew horder hnone)) count
  obtain ⟨enough, hsettled⟩ := growing_settles (knownFacts_finite graph functions locations)
    (fun count => (hchain count).1.knownFacts) fun count => grows_iff.mp (hchain count).2.2
  have hnext : sweepOnce (blockStates graph) order (sweeps graph order enough) =
      sweeps graph order (enough + 1) := (Function.iterate_succ_apply' _ _ _).symm
  refine ⟨enough, ?_, grows_iff.mpr ?_⟩
  · rw [hnext]
    exact hchain enough
  · rw [hnext, hsettled (enough + 1) (by omega)]

theorem Sharpens.sweeps (hfew : FewTargets graph functions locations)
    (horder : order.Perm graph.blocks) (h : Sharpens graph functions locations first second)
    (count : Nat) :
    Sharpens graph functions locations ((sweepOnce (blockStates graph) order)^[count] first)
      ((sweepOnce (blockStates graph) order)^[count] second) :=
  sweeps_respect (Respects.of_perm (sharpens_respected hfew) horder) h count

/-- Flags that are only set come to rest. -/
theorem closing_settles (hfew : FewTargets graph functions locations)
    (horder : order.Perm graph.blocks)
    (h : Sharpens graph functions locations values
      (sweepOnce (blockStates graph) order values)) :
    ∃ enough, Stable (blockStates graph) graph.blocks
      ((sweepOnce (blockStates graph) order)^[enough] values) := by
  have hchain := h.sweeps hfew horder
  obtain ⟨enough, hsettled⟩ := growing_settles (closedLocations_finite graph)
    (fun count => (hchain count).1.1.closedLocations)
    fun count => (closesMore_iff (hchain count).1.2.2).mp (hchain count).2.2
  have hsame := (hchain enough).eq ((closesMore_iff (hchain enough).2.1).mpr
    (hsettled (enough + 1) (by omega)).le)
  rw [← Function.iterate_succ_apply, Function.iterate_succ_apply'] at hsame
  have hstable := stable_of_sweepOnce (horder.nodup_iff.mpr graph.nodup) hsame.symm
  exact ⟨enough, Stable.of_perm hstable horder.symm⟩

/-- So do flags that are only cleared. -/
theorem opening_settles (hfew : FewTargets graph functions locations)
    (horder : order.Perm graph.blocks)
    (h : Sharpens graph functions locations (sweepOnce (blockStates graph) order values)
      values) :
    ∃ enough, Stable (blockStates graph) graph.blocks
      ((sweepOnce (blockStates graph) order)^[enough] values) := by
  have hchain := h.sweeps hfew horder
  obtain ⟨enough, hsettled⟩ := shrinking_settles (closedLocations_finite graph)
    (fun count => (hchain count).1.2.1.closedLocations)
    fun count => (closesMore_iff (hchain count).1.2.2).mp (hchain count).2.2
  have hsame := (hchain enough).eq ((closesMore_iff (hchain enough).2.1).mpr
    (hsettled (enough + 1) (by omega)).ge)
  rw [← Function.iterate_succ_apply, Function.iterate_succ_apply'] at hsame
  have hstable := stable_of_sweepOnce (horder.nodup_iff.mpr graph.nodup) hsame
  exact ⟨enough, Stable.of_perm hstable horder.symm⟩

/-- Any two least solutions are the same. -/
def UniqueSolution (graph : FlowGraph β) (functions locations : Finset String) : Prop :=
  ∀ first second, LeastSolution graph functions locations first →
    LeastSolution graph functions locations second → first = second

theorem sweeps_settle (hfew : FewTargets graph functions locations)
    (hunique : UniqueSolution graph functions locations) (horder : order.Perm graph.blocks) :
    ∃ solution, LeastSolution graph functions locations solution ∧
      ∃ enough, ∀ count ≥ enough, sweeps graph order count = solution := by
  obtain ⟨start, hextends, hback⟩ := facts_settle hfew horder
  have hregular := hextends.1
  generalize hvalues : sweeps graph order start = values at hextends hback hregular
  -- From the same facts, one run starts with all flags cleared and one with all of them set.
  let low := withFlags graph false values
  let high := withFlags graph true values
  have hlowRegular := hregular.withFlags false
  have hhighRegular := hregular.withFlags true
  have hlow : Sharpens graph functions locations low values :=
    ⟨⟨hlowRegular, hregular, (grows_withFlags false).2⟩, (grows_withFlags false).1,
      closesMore_cleared⟩
  have hhigh : Sharpens graph functions locations values high :=
    ⟨⟨hregular, hhighRegular, (grows_withFlags true).1⟩, (grows_withFlags true).2,
      closesMore_set (Grows.refl values)⟩
  have hlowRun := hlow.sweeps hfew horder
  have hhighRun := hhigh.sweeps hfew horder
  have hlowNext := hlowRun 1
  have hhighNext := hhighRun 1
  rw [Function.iterate_one] at hlowNext hhighNext
  have hclosing : Sharpens graph functions locations low
      (sweepOnce (blockStates graph) order low) :=
    ⟨⟨hlowRegular, hlowNext.1.1, (hlow.1.2.2.trans hextends.2.2).trans hlowNext.2.1⟩,
      (hlowNext.1.2.2.trans hback).trans hlow.2.1, closesMore_cleared⟩
  have hopening : Sharpens graph functions locations (sweepOnce (blockStates graph) order high)
      high :=
    ⟨⟨hhighNext.1.2.1, hhighRegular, (hhighNext.2.1.trans hback).trans hhigh.1.2.2⟩,
      (hhigh.2.1.trans hextends.2.2).trans hhighNext.1.2.2,
      closesMore_set (hhighNext.2.1.trans hback)⟩
  obtain ⟨lowEnough, hlowStable⟩ := closing_settles hfew horder hclosing
  obtain ⟨highEnough, hhighStable⟩ := opening_settles hfew horder hopening
  have hrun (count : Nat) : (sweepOnce (blockStates graph) order)^[count] values =
      sweeps graph order (count + start) := by
    rw [← hvalues]
    exact (Function.iterate_add_apply _ count start _).symm
  have hlowLeast : LeastSolution graph functions locations
      ((sweepOnce (blockStates graph) order)^[lowEnough] low) := by
    refine ⟨hlowStable, (hlowRun lowEnough).1.1, fun other hstable hother => ?_⟩
    have hbelow := sweeps_below hfew horder hstable hother (lowEnough + start)
    rw [← hrun] at hbelow
    exact (hlowRun lowEnough).1.2.2.trans hbelow
  have hhighLeast : LeastSolution graph functions locations
      ((sweepOnce (blockStates graph) order)^[highEnough] high) := by
    refine ⟨hhighStable, (hhighRun highEnough).1.2.1, fun other hstable hother => ?_⟩
    have hbelow := sweeps_below hfew horder hstable hother (highEnough + start)
    rw [← hrun] at hbelow
    exact (hhighRun highEnough).2.1.trans hbelow
  have hsame := hunique _ _ hlowLeast hhighLeast
  refine ⟨_, hlowLeast, max lowEnough highEnough + start, fun count hcount => ?_⟩
  obtain ⟨rest, rfl⟩ := Nat.exists_eq_add_of_le' (Nat.le_of_add_left_le hcount)
  rw [← hrun]
  have hafter (first : Values β (BlockStates β)) {enough : Nat} (henough : enough ≤ rest)
      (hstable : Stable (blockStates graph) graph.blocks
        ((sweepOnce (blockStates graph) order)^[enough] first)) :
      (sweepOnce (blockStates graph) order)^[rest] first =
        (sweepOnce (blockStates graph) order)^[enough] first := by
    obtain ⟨more, rfl⟩ := Nat.exists_eq_add_of_le' henough
    rw [Function.iterate_add_apply]
    exact sweepOnce_of_stable (Stable.of_perm hstable horder) more
  have hlowAfter := hafter low (by omega) hlowStable
  have hhighAfter := hafter high (by omega) hhighStable
  have hbelow := hlowRun rest
  have habove := hhighRun rest
  rw [hlowAfter] at hbelow
  rw [hhighAfter, ← hsame] at habove
  exact (hbelow.eq habove.2.2).symm

/-- The same function with its blocks numbered in another order. -/
def FlowGraph.renumber (graph : FlowGraph β) (order : List β) (h : order.Perm graph.blocks) :
    FlowGraph β :=
  { graph with
    blocks := order
    nodup := h.nodup_iff.mpr graph.nodup
    entry_mem := h.mem_iff.mpr graph.entry_mem
    predecessors_mem := fun block previous hprevious =>
      h.mem_iff.mpr (graph.predecessors_mem block previous hprevious) }

theorem blockStates_renumber (horder : order.Perm graph.blocks) :
    blockStates (graph.renumber order horder) = blockStates graph := by
  funext values block
  unfold blockStates transfer
  rw [@applyAccess_congr β (graph.renumber order horder) graph rfl rfl rfl]
  rfl

/-- Without cycles, every block's value follows from those before it. -/
theorem uniqueSolution_of_acyclic
    (h : WellFounded fun previous next => previous ∈ graph.predecessors next) :
    UniqueSolution graph functions locations := by
  intro first second hfirst hsecond
  have hblocks (block : β) : block ∈ graph.blocks → first block = second block := by
    induction h.apply block with
    | intro block _ ih =>
        intro hblock
        have hjoin : joinState graph first block = joinState graph second block := by
          unfold joinState
          congr 1
          apply List.filterMap_congr
          intro previous hprevious
          rw [ih previous hprevious (graph.predecessors_mem block previous hprevious)]
        rw [hfirst.stable block hblock, hsecond.stable block hblock]
        unfold blockStates
        rw [hjoin]
  funext block
  by_cases hblock : block ∈ graph.blocks
  · exact hblocks block hblock
  · have habsent {values : Values β (BlockStates β)}
        (hvalues : LeastSolution graph functions locations values) : values block = none := by
      cases hstates : values block with
      | none => rfl
      | some states => exact absurd (hvalues.regular block states hstates).1 hblock
    rw [habsent hfirst, habsent hsecond]

/-- A function that follows no pointers has no flags that could go round. -/
theorem uniqueSolution_of_untracked (h : ∀ location ∈ accessLocations graph,
    ¬ Tracks graph location) : UniqueSolution graph functions locations := by
  intro first second hfirst hsecond
  have hnone (values other : Values β (BlockStates β))
      (hvalues : LeastSolution graph functions locations values) : ClosesMore values other := by
    rintro block states _ hstates - location ⟨value, hvalue, -⟩
    have hbounded := (hvalues.regular block states hstates).2.1
    have hwithin := hbounded (.target location none) ⟨value, hvalue⟩
    exact absurd hwithin.2.1 (h location hwithin.1)
  have hsharpens : Sharpens graph functions locations first second :=
    ⟨⟨hfirst.regular, hsecond.regular, hfirst.least second hsecond.stable hsecond.regular⟩,
      hsecond.least first hfirst.stable hfirst.regular, hnone first second hfirst⟩
  exact hsharpens.eq (hnone second first hsecond)

end Runs

/-! ## A loop that is entered in its middle -/

section MiddleEntry

/-- `void (*p)() = f; switch (n) { do { tick(); case 1: p(); } while (--n > 0); }`: the exit 0, the
switch 1, the loop's condition 2, the case 3, the body 4, the jump back 5 and the entry 6. -/
def middleEntry : FlowGraph Nat :=
  .ofEdges (List.range 7) 6 [(6, 1), (1, 3), (3, 2), (2, 5), (5, 4), (4, 3), (1, 0), (2, 0)]
    (fun
      | 1 => [{ location := "p", kind := .initialization, assigned := some (.function "f") }]
      | _ => [])
    List.nodup_range (by decide) (by decide) (by decide)
    ((∅ : Table Location).insert "p"
      { kind := "local", typeName := "void (*)()", tracksPointsTo := true })

def flagged (complete : Bool) : PointsToValue := { functions := {"f"}, complete }

/-- Whether `p` is complete behind a block after so many sweeps: from the third sweep on, the
incomplete value goes round in the loop, and the complete one from the switch with it. -/
def middleFlag (count block : Nat) : Option (Option Bool) :=
  if count = 0 then none
  else if block = 1 then some (some true)
  else if block = 3 then some (some (count % 3 = 1))
  else if block = 4 then some (if count ≤ 2 then none else some (count % 3 = 0))
  else some (if count ≤ 1 then none else some (count % 3 = 2))

def MiddleFlag (count block : Nat) (result : Option (BlockStates Nat)) : Prop :=
  1 ≤ block → block ≤ 5 → (result.map fun states => states.2.pointsTo["p"]?) =
    (middleFlag count block).map (Option.map flagged)

theorem capPointsTo_flagged (complete : Bool) : capPointsTo (flagged complete) = flagged complete :=
  if_pos (by simp [flagged, dataFlowMaxAliasTargets])

variable {values : Values Nat (BlockStates Nat)} {block : Nat}

theorem middleEntry_output (hblock : block ≠ 1) :
    (blockStates middleEntry values block).2 = joinState middleEntry values block := by
  have hempty : middleEntry.accesses block = [] := by
    show (match block with
      | 1 => _
      | _ => []) = []
    split <;> simp_all
  unfold blockStates transfer
  rw [hempty]
  rfl

/-- Behind one predecessor, its value is kept. -/
theorem middleEntry_single {previous : Nat} {flag : Option (Option Bool)} (hblock : block ≠ 1)
    (hpredecessors : middleEntry.predecessors block = [previous])
    (hflag : ((values previous).map fun states => states.2.pointsTo["p"]?) =
      flag.map (Option.map flagged)) :
    (blockStates middleEntry values block).2.pointsTo["p"]? = flag.join.map flagged := by
  rw [middleEntry_output hblock]
  unfold joinState
  rw [hpredecessors, pointsTo_joinStates]
  cases hstates : values previous with
  | none =>
      rw [hstates] at hflag
      cases flag with
      | none => simp [hstates]
      | some known => cases hflag
  | some states =>
      rw [hstates] at hflag
      cases flag with
      | none => cases hflag
      | some known =>
          have hknown : states.2.pointsTo["p"]? = known.map flagged := Option.some.inj hflag
          cases known with
          | none =>
              have hkey : "p" ∉ states.2.pointsTo.keys := by
                rw [Table.mem_keys_iff, hknown]
                simp
              simp [hstates, hkey]
          | some complete =>
              have hkey : "p" ∈ states.2.pointsTo.keys := Table.mem_keys_iff.mpr ⟨_, hknown⟩
              have hmerged : mergePointsTo {} (some (flagged complete)) = flagged complete := by
                simp [mergePointsTo, flagged]
              simp only [List.filterMap_cons, hstates, Option.map_some, List.filterMap_nil,
                List.flatMap_cons, List.flatMap_nil, List.append_nil, hkey, ↓reduceIte,
                joinPointsTo, List.map_cons, List.map_nil, hknown, List.foldl_cons, List.foldl_nil,
                Option.join_some, hmerged, capPointsTo_flagged]

/-- The case is behind the switch and the body. -/
theorem middleEntry_case {flag : Option (Option Bool)}
    (hfirst : ((values 1).map fun states => states.2.pointsTo["p"]?) = some (some (flagged true)))
    (hflag : ((values 4).map fun states => states.2.pointsTo["p"]?) =
      flag.map (Option.map flagged)) :
    (blockStates middleEntry values 3).2.pointsTo["p"]? =
      some (flagged ((flag.map fun known => known.getD false).getD true)) := by
  have hpredecessors : middleEntry.predecessors 3 = [1, 4] := by decide
  rw [middleEntry_output (by decide)]
  unfold joinState
  rw [hpredecessors, pointsTo_joinStates]
  obtain ⟨first, hstored, hvalue⟩ := Option.map_eq_some_iff.mp hfirst
  have hkey : "p" ∈ first.2.pointsTo.keys := Table.mem_keys_iff.mpr ⟨_, hvalue⟩
  cases hstates : values 4 with
  | none =>
      rw [hstates] at hflag
      cases flag with
      | some known => cases hflag
      | none =>
          have hmerged : mergePointsTo {} (some (flagged true)) = flagged true := by
            simp [mergePointsTo, flagged]
          simp only [List.filterMap_cons, hstored, hstates, Option.map_some, Option.map_none,
            List.filterMap_nil, List.flatMap_cons, List.flatMap_nil, List.append_nil, hkey,
            ↓reduceIte, joinPointsTo, List.map_cons, List.map_nil, hvalue, List.foldl_cons,
            List.foldl_nil, hmerged, capPointsTo_flagged, Option.getD_none]
  | some states =>
      rw [hstates] at hflag
      cases flag with
      | none => cases hflag
      | some known =>
          have hknown : states.2.pointsTo["p"]? = known.map flagged := Option.some.inj hflag
          have hmerged : mergePointsTo (mergePointsTo {} (some (flagged true)))
              (known.map flagged) = flagged (known.getD false) := by
            cases known <;> simp [mergePointsTo, flagged]
          simp only [List.filterMap_cons, hstored, hstates, Option.map_some, List.filterMap_nil,
            List.flatMap_cons, List.flatMap_nil, List.append_nil, List.mem_append, hkey, true_or,
            ↓reduceIte, joinPointsTo, List.map_cons, List.map_nil, hvalue, hknown, List.foldl_cons,
            List.foldl_nil, hmerged, capPointsTo_flagged, Option.getD_some]

theorem middleEntry_switch :
    (blockStates middleEntry values 1).2.pointsTo["p"]? = some (flagged true) := by
  have haccesses : middleEntry.accesses 1 =
      [{ location := "p", kind := .initialization, assigned := some (.function "f") }] := rfl
  have hbinds : bindsPointer middleEntry
      { location := "p", kind := .initialization, assigned := some (.function "f") } = true := rfl
  unfold blockStates transfer
  rw [haccesses]
  simp only [List.zipIdx_cons, List.zipIdx_nil, List.foldl_cons, List.foldl_nil]
  rw [pointsTo_applyAccess, hbinds]
  simp only [AccessKind.isDefinition, Bool.and_self, ↓reduceIte, Table.getElem?_insert,
    assignedValue, evaluatePointsTo]
  rfl

theorem middleEntry_step {count : Nat}
    (hnext : ∀ other, other < block → MiddleFlag (count + 1) other (values other))
    (hlast : ∀ other < 7, block ≤ other → MiddleFlag count other (values other)) :
    MiddleFlag (count + 1) block (some (blockStates middleEntry values block)) := by
  intro hlow hhigh
  rw [Option.map_some]
  interval_cases block
  · exact congrArg some middleEntry_switch
  · have hcase := hlast 3 (by decide) (by decide) (by decide) (by decide)
    rw [middleEntry_single (by decide) (by decide) hcase]
    rcases Nat.eq_zero_or_pos count with rfl | hcount
    · rfl
    · have hmod : (count % 3 = 1) ↔ ((count + 1) % 3 = 2) := by omega
      simp [middleFlag, hmod, Nat.ne_of_gt hcount]
  · have hbody := hlast 4 (by decide) (by decide) (by decide) (by decide)
    rw [middleEntry_case (hnext 1 (by decide) (by decide) (by decide)) hbody]
    unfold middleFlag
    rcases Nat.eq_zero_or_pos count with rfl | hcount
    · rfl
    · by_cases hearly : count ≤ 2
      · have hmod : ¬ (count + 1) % 3 = 1 := by omega
        simp [Nat.ne_of_gt hcount, hearly, hmod]
      · have hmod : (count % 3 = 0) ↔ ((count + 1) % 3 = 1) := by omega
        simp [Nat.ne_of_gt hcount, hearly, hmod]
  · have hback := hlast 5 (by decide) (by decide) (by decide) (by decide)
    rw [middleEntry_single (by decide) (by decide) hback]
    unfold middleFlag
    rcases Nat.eq_zero_or_pos count with rfl | hcount
    · rfl
    · by_cases hearly : count ≤ 1
      · have hone : count = 1 := by omega
        simp [hone]
      · have hlate : ¬ count + 1 ≤ 2 := by omega
        have hmod : (count % 3 = 2) ↔ ((count + 1) % 3 = 0) := by omega
        simp [Nat.ne_of_gt hcount, hearly, hlate, hmod]
  · have hcondition := hnext 2 (by decide) (by decide) (by decide)
    rw [middleEntry_single (by decide) (by decide) hcondition]
    rfl

theorem middleEntry_flags (count : Nat) : ∀ block ∈ middleEntry.blocks,
    MiddleFlag count block ((sweepOnce (blockStates middleEntry) middleEntry.blocks)^[count]
      (fun _ => none) block) := by
  have hindex (block : Nat) (h : block ∈ middleEntry.blocks) :
      middleEntry.blocks.idxOf block = block := by
    have hlt : block < 7 := List.mem_range.mp h
    interval_cases block <;> rfl
  have hmem (block : Nat) (h : block < 7) : block ∈ middleEntry.blocks := List.mem_range.mpr h
  apply sweeps_stage middleEntry.nodup (Q := MiddleFlag)
  · intro count values block hblock hnext hlast
    have hlt : block < 7 := List.mem_range.mp hblock
    apply middleEntry_step
    · intro other hother
      apply hnext other (hmem other (by omega))
      rwa [hindex _ hblock, hindex _ (hmem other (by omega))]
    · intro other hother hle
      apply hlast other (hmem other hother)
      rwa [hindex _ hblock, hindex _ (hmem other hother)]
  · intro block _ _ _
    rfl

end MiddleEntry

/-- `void (*p)() = n ? f : g; p();`: block 2 chooses one of the functions, block 1 calls it. -/
def chosenTarget : FlowGraph Nat :=
  .ofEdges [0, 1, 2, 3] 3 [(3, 2), (2, 1), (1, 0)]
    (fun
      | 2 => [{ location := "p", kind := .initialization,
                assigned := some (.conditional (.function "f") (.function "g")) }]
      | _ => [])
    (by decide) (by decide) (by decide) (by decide)
    ((∅ : Table Location).insert "p"
      { kind := "local", typeName := "void (*)()", tracksPointsTo := true })

end CppContextEngine.Analyzer
