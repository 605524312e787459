import Mathlib.Data.List.TakeWhile
import CppContextEngine.Analyzer.ReachingDefinitions

/-!
# Values along the paths of a function

On a path every location is bound to one function, one location, null or a value
that nobody knows.  After a number of sweeps the points-to values of a block
admit what the paths bind that go back to an earlier block less often; a path
that goes back more often can bind a function that is missing in a closed set.
-/

namespace CppContextEngine.Analyzer

open CppContextEngine.Foundation

/-! ## Paths -/

inductive PathValue where
  | function (key : String)
  | location (key : String)
  | null
  | unknown
  deriving DecidableEq, Repr

/-- What a path, or its last part, has bound a location to. -/
inductive Binding where
  /-- It depends on what was before. -/
  | earlier
  | unbound
  | bound (value : PathValue)
  deriving DecidableEq, Repr

abbrev PathEnvironment := String → Binding

/-- A value that an expression can have. -/
inductive Evaluates (environment : PathEnvironment) : PointerExpr → PathValue → Prop where
  | function (key : String) : Evaluates environment (.function key) (.function key)
  | bound {location : String} {tracked : Bool} {value : PathValue} :
      environment location = .bound value → Evaluates environment (.value location tracked) value
  | unbound {location : String} : environment location = .unbound →
      Evaluates environment (.value location true) .unknown
  | storage {location : String} : environment location = .unbound →
      Evaluates environment (.value location false) (.location location)
  | addressOf (location : String) : Evaluates environment (.addressOf location) (.location location)
  | whenTrue {whenTrue whenFalse : PointerExpr} {value : PathValue} :
      Evaluates environment whenTrue value →
        Evaluates environment (.conditional whenTrue whenFalse) value
  | whenFalse {whenTrue whenFalse : PointerExpr} {value : PathValue} :
      Evaluates environment whenFalse value →
        Evaluates environment (.conditional whenTrue whenFalse) value
  | memberPointer {member : PointerExpr} {value : PathValue} :
      Evaluates environment member value → Evaluates environment (.memberPointer member) value
  | null : Evaluates environment .null .null
  | other : Evaluates environment .other .unknown

/-- The value of an expression that can be missing. -/
def EvaluatesOptional (environment : PathEnvironment) : Option PointerExpr → PathValue → Prop
  | some expression, value => Evaluates environment expression value
  | none, value => value = .unknown

/-- The locations whose value an expression reads. -/
def PointerExpr.reads : PointerExpr → List String
  | value location _ => [location]
  | conditional whenTrue whenFalse => whenTrue.reads ++ whenFalse.reads
  | memberPointer member => member.reads
  | function _ | addressOf _ | null | other => []

section Paths

variable {β : Type} [DecidableEq β] (graph : FlowGraph β)

/-- The environment behind an access. -/
inductive Binds (environment : PathEnvironment) (access : Access) : PathEnvironment → Prop where
  | bind {value : PathValue} : access.kind.isDefinition = true → bindsPointer graph access = true →
      EvaluatesOptional environment access.assigned value →
        Binds environment access (Function.update environment access.location (.bound value))
  | lose {expression : PointerExpr} {location : String} : access.kind.isDefinition = true →
      bindsPointer graph access = true → access.assigned = some expression →
        location ∈ expression.reads → environment location = .earlier →
          Binds environment access (Function.update environment access.location .earlier)
  | keep : (access.kind.isDefinition && bindsPointer graph access) = false →
      Binds environment access environment

/-- A jump to a block that comes no later in the order of the blocks. -/
def goesBack (previous block : β) : Bool :=
  graph.blocks.idxOf block ≤ graph.blocks.idxOf previous

/-- A path from the entry or, unless it has to be whole, the last part of one; its environment and
how often it goes back. -/
inductive Path (whole : Bool) : Point β → PathEnvironment → Nat → Prop where
  | entry : Path whole (graph.entry, 0) (fun _ => .unbound) 0
  | part {block : β} : whole = false → block ∈ graph.blocks →
      Path whole (block, 0) (fun _ => .earlier) 0
  | access {block : β} {sequence : Nat} {access : Access}
      {environment bound : PathEnvironment} {back : Nat} :
      Path whole (block, sequence) environment back →
        (graph.accesses block)[sequence]? = some access → Binds graph environment access bound →
          Path whole (block, sequence + 1) bound back
  | jump {previous block : β} {environment : PathEnvironment} {back : Nat} :
      Path whole (previous, (graph.accesses previous).length) environment back →
        previous ∈ graph.predecessors block →
          Path whole (block, 0) environment
            (if goesBack graph previous block then back + 1 else back)

end Paths

/-! ## What points-to values admit -/

/-- One of the values of the set. -/
def PointsToValue.Has (value : PointsToValue) : PathValue → Prop
  | .function key => key ∈ value.functions
  | .location key => key ∈ value.locations
  | .null => value.includesNull = true
  | .unknown => False

/-- A set that is complete has the value. -/
def PointsToValue.Admits (value : PointsToValue) (found : PathValue) : Prop :=
  value.complete = true → value.Has found

/-- What a state knows of a location admits its binding; a location that is not always bound is
never complete. -/
def AdmitsBinding (known : Option PointsToValue) : Binding → Prop
  | .earlier => True
  | .unbound => ∀ value ∈ known, value.complete = false
  | .bound found => ∃ value ∈ known, value.Admits found

/-- Some of the locations have values that admit their bindings. -/
def Covers (known : Set String) (pointsTo : Table PointsToValue)
    (environment : PathEnvironment) : Prop :=
  ∀ location ∈ known, AdmitsBinding pointsTo[location]? (environment location)

theorem not_admits_unknown {value : PointsToValue} :
    value.Admits .unknown ↔ value.complete = false := by
  simp [PointsToValue.Admits, PointsToValue.Has]

theorem capPointsTo_cases (value : PointsToValue) :
    capPointsTo value = value ∨ (capPointsTo value).complete = false := by
  unfold capPointsTo
  split
  · exact .inl rfl
  · exact .inr rfl

theorem admits_capPointsTo {value : PointsToValue} {found : PathValue} (h : value.Admits found) :
    (capPointsTo value).Admits found := by
  rcases capPointsTo_cases value with hsame | hcut
  · rw [hsame]
    exact h
  · intro hcomplete
    rw [hcut] at hcomplete
    cases hcomplete

section Evaluate

variable {β : Type} {graph : FlowGraph β} {pointsTo : Table PointsToValue}
variable {environment : PathEnvironment} {found : PathValue} {known : Set String}

theorem evaluatePointsTo_admits (h : Covers known pointsTo environment)
    {expression : PointerExpr} (hreads : ∀ location ∈ expression.reads, location ∈ known)
    (hvalue : Evaluates environment expression found) :
    (evaluatePointsTo graph pointsTo expression).Admits found := by
  induction hvalue with
  | function key => simp [evaluatePointsTo, PointsToValue.Admits, PointsToValue.Has]
  | @bound location tracked value hbound =>
      have hlocation := h location (hreads location (List.mem_singleton_self _))
      rw [hbound] at hlocation
      obtain ⟨known, hget, hadmits⟩ := hlocation
      unfold evaluatePointsTo
      rw [hget]
      exact hadmits
  | @unbound location hbound =>
      have hlocation := h location (hreads location (List.mem_singleton_self _))
      rw [hbound] at hlocation
      unfold evaluatePointsTo
      rw [not_admits_unknown]
      cases hget : pointsTo[location]? with
      | none => rfl
      | some known => exact hlocation known hget
  | @storage location hbound =>
      have hlocation := h location (hreads location (List.mem_singleton_self _))
      rw [hbound] at hlocation
      unfold evaluatePointsTo
      cases hget : pointsTo[location]? with
      | none => simp [PointsToValue.Admits, PointsToValue.Has]
      | some known =>
          intro hcomplete
          exact absurd hcomplete (Bool.eq_false_iff.mp (hlocation known hget))
  | addressOf location => simp [evaluatePointsTo, PointsToValue.Admits, PointsToValue.Has]
  | whenTrue _ ih =>
      apply admits_capPointsTo
      intro hcomplete
      have hfirst := ih (fun location hlocation =>
        hreads location (List.mem_append_left _ hlocation)) (Bool.and_eq_true_iff.mp hcomplete).1
      cases ‹PathValue› <;> simp_all [PointsToValue.Has]
  | whenFalse _ ih =>
      apply admits_capPointsTo
      intro hcomplete
      have hsecond := ih (fun location hlocation =>
        hreads location (List.mem_append_right _ hlocation)) (Bool.and_eq_true_iff.mp hcomplete).2
      cases ‹PathValue› <;> simp_all [PointsToValue.Has]
  | memberPointer _ ih => exact ih hreads
  | null => simp [evaluatePointsTo, PointsToValue.Admits, PointsToValue.Has]
  | other => simp [evaluatePointsTo, unknownValue, PointsToValue.Admits]

theorem evaluateOptional_admits (h : Covers known pointsTo environment)
    {expression : Option PointerExpr}
    (hreads : ∀ found ∈ expression, ∀ location ∈ found.reads, location ∈ known)
    (hvalue : EvaluatesOptional environment expression found) :
    (evaluateOptional graph pointsTo expression).Admits found := by
  cases expression with
  | none =>
      rw [hvalue, not_admits_unknown]
      rfl
  | some expression => exact evaluatePointsTo_admits h (hreads expression rfl) hvalue

end Evaluate

/-! ## States -/

section States

variable {β : Type} {graph : FlowGraph β} {block : β} {state : DataFlowState β}
variable {environment bound : PathEnvironment} {known : Set String}

/-- Pointers whose values come from each other; where one is defined without an expression, it is
marked incomplete. -/
def Tracked (graph : FlowGraph β) (known : Set String) : Prop :=
  ∀ block, ∀ access ∈ graph.accesses block, access.location ∈ known →
    access.kind.isDefinition = true → bindsPointer graph access = true →
      (∀ expression ∈ access.assigned, ∀ location ∈ expression.reads, location ∈ known) ∧
        (access.assigned = none → access.pointsToComplete = false)

theorem pointsTo_applyAccess (access : Access) (sequence : Nat) :
    (applyAccess graph block state (access, sequence)).pointsTo =
      if access.kind.isDefinition && bindsPointer graph access then
        state.pointsTo.insert access.location (assignedValue graph state.pointsTo access)
      else state.pointsTo := by
  unfold applyAccess
  by_cases hkind : access.kind.isDefinition = true <;> simp [hkind]

theorem assignedValue_admits (htracked : Tracked graph known)
    (h : Covers known state.pointsTo environment) {access : Access}
    (haccess : access ∈ graph.accesses block) (hknown : access.location ∈ known)
    (hkind : access.kind.isDefinition = true) (hpointer : bindsPointer graph access = true)
    {value : PathValue} (hvalue : EvaluatesOptional environment access.assigned value) :
    (assignedValue graph state.pointsTo access).Admits value := by
  obtain ⟨hreads, hmark⟩ := htracked block access haccess hknown hkind hpointer
  unfold assignedValue
  cases hassigned : access.assigned with
  | none =>
      rw [hassigned] at hvalue
      rw [hvalue, not_admits_unknown]
      exact hmark hassigned
  | some expression =>
      rw [hassigned] at hvalue
      exact evaluatePointsTo_admits h (hreads expression hassigned) hvalue

theorem Covers.access (htracked : Tracked graph known)
    (h : Covers known state.pointsTo environment) {sequence : Nat} {access : Access}
    (haccess : (graph.accesses block)[sequence]? = some access)
    (hbinds : Binds graph environment access bound) :
    Covers known (applyAccess graph block state (access, sequence)).pointsTo bound := by
  rw [pointsTo_applyAccess]
  cases hbinds with
  | keep hkeep =>
      rw [hkeep]
      exact h
  | lose hkind hpointer =>
      rw [hkind, hpointer]
      intro location hknown
      simp only [Bool.and_self, ↓reduceIte, Table.getElem?_insert]
      by_cases hlocation : access.location = location
      · subst hlocation
        rw [Function.update_self]
        trivial
      · rw [if_neg hlocation, Function.update_of_ne (Ne.symm hlocation)]
        exact h location hknown
  | @bind value hkind hpointer hvalue =>
      rw [hkind, hpointer]
      intro location hknown
      simp only [Bool.and_self, ↓reduceIte, Table.getElem?_insert]
      by_cases hlocation : access.location = location
      · subst hlocation
        rw [if_pos rfl, Function.update_self]
        refine ⟨_, rfl, ?_⟩
        exact assignedValue_admits htracked h (List.mem_of_getElem? haccess) hknown hkind hpointer
          hvalue
      · rw [if_neg hlocation, Function.update_of_ne (Ne.symm hlocation)]
        exact h location hknown

/-! ## Joins -/

theorem mergePointsTo_complete (founds : List (Option PointsToValue)) :
    ∀ start : PointsToValue, (founds.foldl mergePointsTo start).complete = true ↔
      start.complete = true ∧ ∀ found ∈ founds, ∃ value, found = some value ∧
        value.complete = true := by
  induction founds with
  | nil => simp
  | cons found founds ih =>
      intro start
      rw [List.foldl_cons, ih]
      cases found <;> simp [mergePointsTo, and_assoc]

theorem mergePointsTo_has (target : PathValue) (founds : List (Option PointsToValue)) :
    ∀ start : PointsToValue, (founds.foldl mergePointsTo start).Has target ↔
      start.Has target ∨ ∃ value, some value ∈ founds ∧ value.Has target := by
  induction founds with
  | nil => simp
  | cons found founds ih =>
      intro start
      rw [List.foldl_cons, ih]
      cases found with
      | none => cases target <;> simp [mergePointsTo, PointsToValue.Has]
      | some value => cases target <;> simp [mergePointsTo, PointsToValue.Has, or_assoc]

variable [DecidableEq β]

theorem pointsTo_joinStates {navigationOnly : Bool} {states : List (DataFlowState β)}
    {incoming : Nat} {location : String} :
    (joinStates navigationOnly states incoming).pointsTo[location]? =
      if location ∈ states.flatMap fun state => state.pointsTo.keys then
        some (joinPointsTo states location)
      else none := by
  unfold joinStates
  rw [getElem?_tabulate]

/-- The join of the states admits what one of them admits. -/
theorem Covers.join {navigationOnly : Bool} {states : List (DataFlowState β)} {incoming : Nat}
    (hstate : state ∈ states) (h : Covers known state.pointsTo environment) :
    Covers known (joinStates navigationOnly states incoming).pointsTo environment := by
  intro location hknown
  have hlocation := h location hknown
  rw [pointsTo_joinStates]
  have hmem : state.pointsTo[location]? ∈ states.map fun state => state.pointsTo[location]? :=
    List.mem_map_of_mem hstate
  split
  · -- A state without the location, or one that is incomplete, keeps the join incomplete.
    have hcomplete : (joinPointsTo states location).complete = true →
        ∃ value, state.pointsTo[location]? = some value ∧ value.complete = true := by
      intro hcomplete
      unfold joinPointsTo at hcomplete
      rcases capPointsTo_cases ((states.map fun state => state.pointsTo[location]?).foldl
        mergePointsTo {}) with hsame | hcut
      · rw [hsame, mergePointsTo_complete] at hcomplete
        exact hcomplete.2 _ hmem
      · rw [hcut] at hcomplete
        cases hcomplete
    cases hbinding : environment location with
    | earlier => trivial
    | unbound =>
        rw [hbinding] at hlocation
        rintro _ ⟨⟩
        apply Bool.eq_false_iff.mpr
        intro hjoined
        obtain ⟨value, hvalue, hclosed⟩ := hcomplete hjoined
        exact absurd hclosed (Bool.eq_false_iff.mp (hlocation value hvalue))
    | bound found =>
        rw [hbinding] at hlocation
        obtain ⟨value, hvalue, hadmits⟩ := hlocation
        refine ⟨_, rfl, admits_capPointsTo fun hjoined => ?_⟩
        rw [mergePointsTo_complete] at hjoined
        obtain ⟨other, hother, hclosed⟩ := hjoined.2 _ hmem
        rw [hvalue] at hother hmem
        cases hother
        rw [mergePointsTo_has]
        exact .inr ⟨value, hmem, hadmits hclosed⟩
  · rename_i habsent
    cases hbinding : environment location with
    | earlier => trivial
    | unbound =>
        intro value hvalue
        cases hvalue
    | bound found =>
        rw [hbinding] at hlocation
        obtain ⟨value, hvalue, -⟩ := hlocation
        have hkey : location ∈ state.pointsTo.keys := Table.mem_keys_iff.mpr ⟨value, hvalue⟩
        exact absurd (List.mem_flatMap.mpr ⟨state, hstate, hkey⟩) habsent

end States

/-! ## Sweeps -/

section Sweeps

variable {β : Type} [DecidableEq β] {graph : FlowGraph β} {block : β}
variable {environment : PathEnvironment} {known : Set String} {whole : Bool} {back : Nat}

/-- A path to a place in a block has entered the block at its beginning. -/
theorem Path.block_start (htracked : Tracked graph known) {point : Point β}
    (h : Path graph whole point environment back) : ∃ before,
      Path graph whole (point.1, 0) before back ∧ point.2 ≤ (graph.accesses point.1).length ∧
        ∀ state : DataFlowState β, Covers known state.pointsTo before →
          Covers known (stateAt graph point.1 state point.2).pointsTo environment := by
  induction h with
  | entry => exact ⟨_, .entry, Nat.zero_le _, fun state hstate => by rwa [stateAt_zero]⟩
  | part hwhole hblock =>
      exact ⟨_, .part hwhole hblock, Nat.zero_le _, fun state hstate => by rwa [stateAt_zero]⟩
  | jump hpath hprevious _ =>
      exact ⟨_, .jump hpath hprevious, Nat.zero_le _, fun state hstate => by rwa [stateAt_zero]⟩
  | access _ haccess hbinds ih =>
      obtain ⟨start, hstart, -, hcovers⟩ := ih
      refine ⟨start, hstart, (List.getElem?_eq_some_iff.mp haccess).1, fun state hstate => ?_⟩
      simp only
      rw [stateAt_succ haccess]
      exact (hcovers state hstate).access htracked haccess hbinds

/-- The block was visited since the path came to it. -/
def Visited (graph : FlowGraph β) (known : Set String) (whole : Bool) (count : Nat) (block : β)
    (result : Option (BlockStates β)) : Prop :=
  ∀ environment back, Path graph whole (block, 0) environment back → back < count →
    ∃ states, result = some states ∧ Covers known states.1.pointsTo environment ∧
      states.2 = transfer graph block states.1

theorem covers_unbound {pointsTo : Table PointsToValue}
    (h : ∀ location : String, pointsTo[location]? = none) :
    Covers known pointsTo fun _ => .unbound := by
  intro location _ value hvalue
  rw [h location] at hvalue
  cases hvalue

/-- By what the last visit of the predecessor on the path has found. -/
theorem covers_joinState (htracked : Tracked graph known) {count : Nat}
    {values : Values β (BlockStates β)}
    (hlast : ∀ other ∈ graph.blocks, graph.blocks.idxOf block ≤ graph.blocks.idxOf other →
      Visited graph known whole count other (values other))
    (hnext : ∀ other ∈ graph.blocks, graph.blocks.idxOf other < graph.blocks.idxOf block →
      Visited graph known whole (count + 1) other (values other))
    (hpath : Path graph whole (block, 0) environment back) (hback : back < count + 1) :
    Covers known (joinState graph values block).pointsTo environment := by
  generalize hpoint : (block, 0) = point at hpath
  cases hpath with
  | entry =>
      cases hpoint
      apply covers_unbound
      intro location
      unfold joinState
      rw [pointsTo_joinStates, graph.entry_first]
      rfl
  | part => exact fun _ _ => trivial
  | access => cases hpoint
  | @jump previous target _ back hpath hprevious =>
      cases hpoint
      obtain ⟨before, hstart, -, hcovers⟩ := hpath.block_start htracked
      have hmem := graph.predecessors_mem _ _ hprevious
      have hvisited : ∃ states, values previous = some states ∧
          Covers known states.1.pointsTo before ∧ states.2 = transfer graph previous states.1 := by
        by_cases hgoes : goesBack graph previous block = true
        · rw [if_pos hgoes] at hback
          exact hlast previous hmem (by simpa [goesBack] using hgoes) before back hstart (by omega)
        · rw [if_neg hgoes] at hback
          refine hnext previous hmem ?_ before back hstart hback
          simpa [goesBack] using hgoes
      obtain ⟨states, hstates, hbefore, hout⟩ := hvisited
      have hcovered : Covers known states.2.pointsTo environment := by
        rw [hout, transfer_eq_stateAt]
        exact hcovers states.1 hbefore
      refine hcovered.join (List.mem_filterMap.mpr ⟨previous, hprevious, ?_⟩)
      rw [hstates]
      rfl

theorem iterate_visited (htracked : Tracked graph known) (cap : Nat) :
    ∀ block ∈ graph.blocks, Visited graph known whole cap block ((iterate graph cap).1 block) := by
  unfold iterate
  rw [settle_values]
  apply sweeps_stage graph.nodup (Q := Visited graph known whole)
  · intro count values block _ hnext hlast environment back hpath hback
    exact ⟨_, rfl, covers_joinState htracked hlast hnext hpath hback, rfl⟩
  · intro block _ environment back _ hback
    omega

/-- The state before an access covers the paths to it that go back less often than there were
sweeps. -/
theorem covers_stateAt (htracked : Tracked graph known) {cap sequence : Nat}
    (hblock : block ∈ graph.blocks) (hpath : Path graph whole (block, sequence) environment back)
    (hback : back < cap) :
    Covers known (stateAt graph block (inputOf (iterate graph cap).1 block) sequence).pointsTo
      environment := by
  obtain ⟨before, hstart, -, hcovers⟩ := hpath.block_start htracked
  apply hcovers
  obtain ⟨states, hstates, hbefore, -⟩ := iterate_visited htracked cap block hblock before back
    hstart hback
  unfold inputOf
  rw [hstates]
  exact hbefore

end Sweeps

/-! ## What the sets have comes from paths -/

section Origins

variable {β : Type} {graph : FlowGraph β} {block : β}

/-- The values that a set can only have from the paths. -/
def PathValue.IsTarget : PathValue → Prop
  | function _ | null => True
  | location _ | unknown => False

theorem mem_of_mem_smallest {n : Nat} {names : Finset String} {name : String}
    (h : name ∈ smallest n names) : name ∈ names := by
  unfold smallest at h
  have hmem := List.mem_of_mem_take (List.mem_toFinset.mp h)
  simpa using hmem

theorem has_of_capPointsTo {value : PointsToValue} {found : PathValue}
    (h : (capPointsTo value).Has found) : value.Has found := by
  unfold capPointsTo at h
  split at h
  · exact h
  · cases found with
    | function key => exact mem_of_mem_smallest h
    | location key => exact mem_of_mem_smallest h
    | null => exact h
    | unknown => exact h

/-- An expression has a value, or it depends on what was before. -/
theorem evaluates_total (environment : PathEnvironment) (expression : PointerExpr) :
    (∃ found, Evaluates environment expression found) ∨
      ∃ location ∈ expression.reads, environment location = .earlier := by
  induction expression with
  | function key => exact .inl ⟨_, .function key⟩
  | addressOf location => exact .inl ⟨_, .addressOf location⟩
  | null => exact .inl ⟨_, .null⟩
  | other => exact .inl ⟨_, .other⟩
  | value location tracked =>
      cases hbinding : environment location with
      | earlier => exact .inr ⟨location, List.mem_singleton_self _, hbinding⟩
      | bound found => exact .inl ⟨found, .bound hbinding⟩
      | unbound =>
          cases tracked with
          | true => exact .inl ⟨_, .unbound hbinding⟩
          | false => exact .inl ⟨_, .storage hbinding⟩
  | conditional whenTrue whenFalse ih _ =>
      rcases ih with ⟨found, hfound⟩ | ⟨location, hmem, hbinding⟩
      · exact .inl ⟨found, .whenTrue hfound⟩
      · exact .inr ⟨location, List.mem_append_left _ hmem, hbinding⟩
  | memberPointer member ih =>
      rcases ih with ⟨found, hfound⟩ | hearlier
      · exact .inl ⟨found, .memberPointer hfound⟩
      · exact .inr hearlier

/-- Every path goes on through an access, and keeps the bindings of the other locations. -/
theorem binds_total (environment : PathEnvironment) (access : Access) :
    ∃ bound, Binds graph environment access bound ∧
      ∀ location, (access.kind.isDefinition && bindsPointer graph access) = false ∨
        access.location ≠ location → bound location = environment location := by
  by_cases hbinds : (access.kind.isDefinition && bindsPointer graph access) = true
  · obtain ⟨hkind, hpointer⟩ := Bool.and_eq_true_iff.mp hbinds
    have hother (binding : Binding) : ∀ location,
        (access.kind.isDefinition && bindsPointer graph access) = false ∨
          access.location ≠ location →
            Function.update environment access.location binding location =
              environment location := by
      intro location h
      rcases h with h | h
      · rw [hbinds] at h
        cases h
      · rw [Function.update_of_ne (Ne.symm h)]
    cases hassigned : access.assigned with
    | none => exact ⟨_, .bind hkind hpointer (by rw [hassigned]; rfl), hother (.bound .unknown)⟩
    | some expression =>
        rcases evaluates_total environment expression with
            ⟨found, hfound⟩ | ⟨location, hmem, hbinding⟩
        · exact ⟨_, .bind hkind hpointer (by rw [hassigned]; exact hfound), hother (.bound found)⟩
        · exact ⟨_, .lose hkind hpointer hassigned hmem hbinding, hother .earlier⟩
  · have hkeep := Bool.eq_false_iff.mpr hbinds
    exact ⟨environment, .keep hkeep, fun _ _ => rfl⟩

variable [DecidableEq β]

/-- Each function and null of a set was bound on the last part of a path. -/
def Witnessed (graph : FlowGraph β) (count : Nat) (point : Point β)
    (pointsTo : Table PointsToValue) : Prop :=
  ∀ location value found, pointsTo[location]? = some value → value.Has found → found.IsTarget →
    ∃ environment, ∃ back < count, Path graph false point environment back ∧
      environment location = .bound found

variable {count : Nat} {state : DataFlowState β}

theorem evaluatePointsTo_witnessed {point : Point β}
    (h : Witnessed graph count point state.pointsTo)
    (hreach : ∃ environment, ∃ back < count, Path graph false point environment back)
    {expression : PointerExpr} {found : PathValue}
    (hhas : (evaluatePointsTo graph state.pointsTo expression).Has found)
    (htarget : found.IsTarget) : ∃ environment, ∃ back < count,
      Path graph false point environment back ∧ Evaluates environment expression found := by
  obtain ⟨start, steps, hsteps, hpath⟩ := hreach
  induction expression with
  | function key =>
      cases found with
      | function other =>
          rw [Finset.mem_singleton.mp hhas]
          exact ⟨start, steps, hsteps, hpath, .function key⟩
      | null => cases hhas
      | location => cases htarget
      | unknown => cases htarget
  | value location tracked =>
      unfold evaluatePointsTo at hhas
      cases hget : state.pointsTo[location]? with
      | some value =>
          rw [hget] at hhas
          obtain ⟨environment, back, hback, hpath, hbinding⟩ :=
            h location value found hget hhas htarget
          exact ⟨environment, back, hback, hpath, .bound hbinding⟩
      | none =>
          rw [hget] at hhas
          cases tracked <;> cases found <;>
            simp_all [PointsToValue.Has, unknownValue, PathValue.IsTarget]
  | addressOf location =>
      cases found <;> simp_all [PointsToValue.Has, evaluatePointsTo, PathValue.IsTarget]
  | conditional whenTrue whenFalse ihTrue ihFalse =>
      have hjoined := has_of_capPointsTo hhas
      have hbranch : (evaluatePointsTo graph state.pointsTo whenTrue).Has found ∨
          (evaluatePointsTo graph state.pointsTo whenFalse).Has found := by
        cases found <;> simp_all [PointsToValue.Has]
      rcases hbranch with hbranch | hbranch
      · obtain ⟨environment, back, hback, hpath, hvalue⟩ := ihTrue hbranch
        exact ⟨environment, back, hback, hpath, .whenTrue hvalue⟩
      · obtain ⟨environment, back, hback, hpath, hvalue⟩ := ihFalse hbranch
        exact ⟨environment, back, hback, hpath, .whenFalse hvalue⟩
  | memberPointer member ih =>
      obtain ⟨environment, back, hback, hpath, hvalue⟩ := ih hhas
      exact ⟨environment, back, hback, hpath, .memberPointer hvalue⟩
  | null =>
      cases found with
      | null => exact ⟨start, steps, hsteps, hpath, .null⟩
      | function other => cases hhas
      | location => cases htarget
      | unknown => cases htarget
  | other => cases found <;> simp_all [PointsToValue.Has, evaluatePointsTo, unknownValue]

theorem Path.part_access {sequence back : Nat} {environment : PathEnvironment}
    (h : Path graph false (block, sequence) environment back) {access : Access}
    (haccess : (graph.accesses block)[sequence]? = some access) :
    ∃ bound, Path graph false (block, sequence + 1) bound back ∧
      ∀ location, (access.kind.isDefinition && bindsPointer graph access) = false ∨
        access.location ≠ location → bound location = environment location := by
  obtain ⟨bound, hbinds, hkeep⟩ := binds_total environment access
  exact ⟨bound, .access h haccess hbinds, hkeep⟩

theorem Witnessed.access {sequence : Nat}
    (h : Witnessed graph count (block, sequence) state.pointsTo)
    (hreach : ∃ environment, ∃ back < count, Path graph false (block, sequence) environment back)
    {access : Access} (haccess : (graph.accesses block)[sequence]? = some access) :
    Witnessed graph count (block, sequence + 1)
      (applyAccess graph block state (access, sequence)).pointsTo := by
  intro location value found hget hhas htarget
  rw [pointsTo_applyAccess] at hget
  by_cases hbinds : (access.kind.isDefinition && bindsPointer graph access) = true ∧
      access.location = location
  · obtain ⟨hbinding, hlocation⟩ := hbinds
    rw [if_pos hbinding, Table.getElem?_insert, if_pos hlocation] at hget
    cases hget
    obtain ⟨hkind, hpointer⟩ := Bool.and_eq_true_iff.mp hbinding
    unfold assignedValue at hhas
    cases hassigned : access.assigned with
    | none =>
        rw [hassigned] at hhas
        cases found <;> simp [PointsToValue.Has] at hhas htarget
    | some expression =>
        rw [hassigned] at hhas
        obtain ⟨environment, back, hback, hpath, hvalue⟩ :=
          evaluatePointsTo_witnessed h hreach hhas htarget
        have hoptional : EvaluatesOptional environment access.assigned found := by
          rw [hassigned]
          exact hvalue
        refine ⟨_, back, hback, .access hpath haccess (.bind hkind hpointer hoptional), ?_⟩
        rw [hlocation, Function.update_self]
  · have hkeep : (access.kind.isDefinition && bindsPointer graph access) = false ∨
        access.location ≠ location := by
      rw [← Bool.not_eq_true]
      exact not_and_or.mp hbinds
    have hbefore : state.pointsTo[location]? = some value := by
      rcases hkeep with hkeep | hother
      · rw [hkeep] at hget
        exact hget
      · split at hget
        · rw [Table.getElem?_insert, if_neg hother] at hget
          exact hget
        · exact hget
    obtain ⟨environment, back, hback, hpath, hbinding⟩ :=
      h location value found hbefore hhas htarget
    obtain ⟨bound, hbound, hsame⟩ := hpath.part_access haccess
    exact ⟨bound, back, hback, hbound, (hsame location hkeep).trans hbinding⟩

theorem Witnessed.stateAt (h : Witnessed graph count (block, 0) state.pointsTo)
    (hblock : block ∈ graph.blocks) (hcount : 0 < count) {sequence : Nat}
    (hsequence : sequence ≤ (graph.accesses block).length) :
    (∃ environment, ∃ back < count, Path graph false (block, sequence) environment back) ∧
      Witnessed graph count (block, sequence) (stateAt graph block state sequence).pointsTo := by
  induction sequence with
  | zero =>
      rw [stateAt_zero]
      exact ⟨⟨_, 0, hcount, .part rfl hblock⟩, h⟩
  | succ sequence ih =>
      have haccess : (graph.accesses block)[sequence]? = some (graph.accesses block)[sequence] :=
        List.getElem?_eq_getElem hsequence
      obtain ⟨hreach, hstate⟩ := ih (by omega)
      rw [stateAt_succ haccess]
      refine ⟨?_, hstate.access hreach haccess⟩
      obtain ⟨environment, back, hback, hpath⟩ := hreach
      obtain ⟨bound, hbound, -⟩ := hpath.part_access haccess
      exact ⟨bound, back, hback, hbound⟩

/-- A stored block has its functions and null from paths. -/
def Originates (graph : FlowGraph β) (count : Nat) (block : β)
    (result : Option (BlockStates β)) : Prop :=
  ∀ states ∈ result, 0 < count ∧ Witnessed graph count (block, 0) states.1.pointsTo ∧
    states.2 = transfer graph block states.1

theorem witnessed_joinState {values : Values β (BlockStates β)}
    (hnext : ∀ other ∈ graph.blocks, graph.blocks.idxOf other < graph.blocks.idxOf block →
      Originates graph (count + 1) other (values other))
    (hlast : ∀ other ∈ graph.blocks, graph.blocks.idxOf block ≤ graph.blocks.idxOf other →
      Originates graph count other (values other)) :
    Witnessed graph (count + 1) (block, 0) (joinState graph values block).pointsTo := by
  intro location value found hget hhas htarget
  unfold joinState at hget
  rw [pointsTo_joinStates] at hget
  split at hget
  · cases hget
    have hmerged := has_of_capPointsTo hhas
    rw [mergePointsTo_has] at hmerged
    rcases hmerged with hempty | ⟨known, hknown, hhas⟩
    · cases found <;> simp [PointsToValue.Has] at hempty htarget
    · obtain ⟨state, hstate, hlocation⟩ := List.mem_map.mp hknown
      obtain ⟨previous, hprevious, hstored⟩ := List.mem_filterMap.mp hstate
      obtain ⟨states, hstates, rfl⟩ := Option.map_eq_some_iff.mp hstored
      have hmem := graph.predecessors_mem _ _ hprevious
      have hout (stage : Nat) (h : Originates graph stage previous (values previous)) :
          ∃ environment, ∃ back < stage,
            Path graph false (previous, (graph.accesses previous).length) environment back ∧
              environment location = .bound found := by
        obtain ⟨hstage, hwitnessed, hsame⟩ := h states hstates
        rw [hsame, transfer_eq_stateAt] at hlocation
        exact (hwitnessed.stateAt hmem hstage le_rfl).2 location known found hlocation hhas htarget
      by_cases hgoes : goesBack graph previous block = true
      · have hindex : graph.blocks.idxOf block ≤ graph.blocks.idxOf previous := by
          simpa [goesBack] using hgoes
        obtain ⟨environment, back, hback, hpath, hbinding⟩ := hout count (hlast _ hmem hindex)
        have hjump := Path.jump hpath hprevious
        rw [if_pos hgoes] at hjump
        exact ⟨environment, back + 1, by omega, hjump, hbinding⟩
      · have hindex : graph.blocks.idxOf previous < graph.blocks.idxOf block := by
          simpa [goesBack] using hgoes
        obtain ⟨environment, back, hback, hpath, hbinding⟩ :=
          hout (count + 1) (hnext _ hmem hindex)
        have hjump := Path.jump hpath hprevious
        rw [if_neg hgoes] at hjump
        exact ⟨environment, back, hback, hjump, hbinding⟩
  · cases hget

theorem iterate_originates (cap : Nat) : ∀ block ∈ graph.blocks,
    Originates graph cap block ((iterate graph cap).1 block) := by
  unfold iterate
  rw [settle_values]
  apply sweeps_stage graph.nodup (Q := Originates graph)
  · rintro count values block hblock hnext hlast _ ⟨⟩
    exact ⟨by omega, witnessed_joinState hnext hlast, rfl⟩
  · rintro block _ _ ⟨⟩

/-- What the state before an access has was bound with fewer steps back than there were sweeps. -/
theorem stateAt_witnessed {cap : Nat} (hcap : 0 < cap) (hblock : block ∈ graph.blocks)
    {sequence : Nat} (hsequence : sequence ≤ (graph.accesses block).length) :
    (∃ environment, ∃ back < cap, Path graph false (block, sequence) environment back) ∧
      Witnessed graph cap (block, sequence)
        (stateAt graph block (inputOf (iterate graph cap).1 block) sequence).pointsTo := by
  apply Witnessed.stateAt _ hblock hcap hsequence
  unfold inputOf
  cases hstored : (iterate graph cap).1 block with
  | none =>
      intro location value found hget
      simp at hget
  | some states => exact (iterate_originates cap block hblock states hstored).2.1

end Origins

/-! ## Calls -/

section Calls

theorem dropWhile_dropWhile {α : Type} {p q : α → Bool} (h : ∀ item, p item = true → q item = true)
    (items : List α) : (items.dropWhile p).dropWhile q = items.dropWhile q := by
  induction items with
  | nil => rfl
  | cons item items ih =>
      by_cases hp : p item = true
      · rw [List.dropWhile_cons_of_pos hp, ih, List.dropWhile_cons_of_pos (h item hp)]
      · rw [List.dropWhile_cons_of_neg hp]

variable {β : Type}

/-- What is left of sorted calls has no smaller sequence number. -/
theorem sequence_le_of_dropWhile {calls : List (IndirectCall β)}
    (hsorted : calls.Pairwise fun first second => first.sequence ≤ second.sequence) (count : Nat) :
    ∀ call ∈ calls.dropWhile (fun call => call.sequence < count), count ≤ call.sequence := by
  induction calls with
  | nil => simp
  | cons first rest ih =>
      obtain ⟨hfirst, hrest⟩ := List.pairwise_cons.mp hsorted
      by_cases hbefore : first.sequence < count
      · rw [List.dropWhile_cons_of_pos (by simpa using hbefore)]
        exact ih hrest
      · rw [List.dropWhile_cons_of_neg (by simpa using hbefore)]
        intro call hcall
        rcases List.mem_cons.mp hcall with rfl | hcall
        · omega
        · exact le_trans (by omega) (hfirst call hcall)

variable [DecidableEq β] {graph : FlowGraph β} {block : β}

/-- The calls of a block in the order in which the pass evaluates them. -/
def callsOf (graph : FlowGraph β) (block : β) : List (IndirectCall β) :=
  (graph.calls.filter fun call => call.block = block).mergeSort
    fun first second => first.sequence ≤ second.sequence

theorem callsOf_sorted (graph : FlowGraph β) (block : β) : (callsOf graph block).Pairwise
    fun first second => first.sequence ≤ second.sequence := by
  let before (first second : IndirectCall β) : Bool := first.sequence ≤ second.sequence
  have htrans (first second third : IndirectCall β) (hfirst : before first second = true)
      (hsecond : before second third = true) : before first third = true := by
    simp only [before, decide_eq_true_eq] at *
    omega
  have htotal (first second : IndirectCall β) :
      (before first second || before second first) = true := by
    simp only [before, Bool.or_eq_true, decide_eq_true_eq]
    omega
  exact (List.pairwise_mergeSort htrans htotal _).imp fun h => of_decide_eq_true h

theorem mem_callsOf {call : IndirectCall β} :
    call ∈ callsOf graph block ↔ call ∈ graph.calls ∧ call.block = block := by
  unfold callsOf
  rw [List.mem_mergeSort]
  simp

/-- The value of a call comes from the state before the access that it precedes. -/
def Evaluated (graph : FlowGraph β) (block : β) (state : DataFlowState β)
    (calls : List (IndirectCall β)) (record : IndirectCall β × PointsToValue) : Prop :=
  record.1 ∈ calls ∧ record.2 = evaluateOptional graph (stateAt graph block state
    (min record.1.sequence (graph.accesses block).length)).pointsTo record.1.callee

theorem passBlock_calls (graph : FlowGraph β) (block : β) (state : DataFlowState β)
    {calls : List (IndirectCall β)}
    (hsorted : calls.Pairwise fun first second => first.sequence ≤ second.sequence) {count : Nat}
    (hcount : count ≤ (graph.accesses block).length) :
    let pass := ((graph.accesses block).zipIdx.take count).foldl (BlockPass.step graph block)
      { state, calls }
    pass.state = stateAt graph block state count ∧
      pass.calls = calls.dropWhile (fun call => call.sequence < count) ∧
      pass.values.map Prod.fst ++ pass.calls = calls ∧
      ∀ record ∈ pass.values, Evaluated graph block state calls record := by
  induction count with
  | zero =>
      refine ⟨by simp, ?_, by simp, by simp⟩
      cases calls <;> simp
  | succ count ih =>
      have haccess : (graph.accesses block)[count]? = some (graph.accesses block)[count] :=
        List.getElem?_eq_getElem hcount
      have hrecord : (graph.accesses block).zipIdx[count]? =
          some ((graph.accesses block)[count], count) := by
        simp [haccess]
      obtain ⟨hstate, hcalls, hall, hvalues⟩ := ih (by omega)
      rw [List.take_add_one, hrecord, List.foldl_append]
      simp only [Option.toList_some, List.foldl_cons, List.foldl_nil, BlockPass.step,
        BlockPass.evaluateCalls, hstate, hcalls]
      refine ⟨(stateAt_succ haccess).symm, ?_, ?_, fun record hmem => ?_⟩
      · rw [dropWhile_dropWhile]
        · simp only [Nat.lt_succ_iff]
        · intro call hcall
          simp only [decide_eq_true_eq] at *
          omega
      · rw [hcalls] at hall
        rw [List.map_append, List.map_map, List.append_assoc]
        simpa [Function.comp_def] using hall
      · rcases List.mem_append.mp hmem with hmem | hmem
        · exact hvalues record hmem
        · obtain ⟨call, hcall, rfl⟩ := List.mem_map.mp hmem
          have hdue : call.sequence ≤ count := by
            simpa using List.mem_takeWhile_imp hcall
          have hleft := List.takeWhile_subset _ hcall
          have hsame : call.sequence = count :=
            le_antisymm hdue (sequence_le_of_dropWhile hsorted count call hleft)
          refine ⟨List.dropWhile_subset _ hleft, ?_⟩
          simp only
          rw [hsame, min_eq_left (by omega)]

/-- Behind the last access the rest of the calls is evaluated. -/
theorem passBlock_values (graph : FlowGraph β) (block : β) (state : DataFlowState β) :
    (passBlock graph block state).values =
      let pass := (graph.accesses block).zipIdx.foldl (BlockPass.step graph block)
        { state, calls := callsOf graph block }
      pass.values ++ pass.calls.map fun call =>
        (call, evaluateOptional graph pass.state.pointsTo call.callee) := by
  unfold passBlock callsOf BlockPass.evaluateCalls
  simp only
  rw [List.takeWhile_eq_self_iff.mpr (by simp)]

theorem passBlock_evaluated (graph : FlowGraph β) (block : β) (state : DataFlowState β) :
    (passBlock graph block state).values.map Prod.fst = callsOf graph block ∧
      ∀ record ∈ (passBlock graph block state).values,
        Evaluated graph block state (callsOf graph block) record := by
  obtain ⟨hstate, hcalls, hall, hvalues⟩ :=
    passBlock_calls graph block state (callsOf_sorted graph block) le_rfl
  rw [List.take_of_length_le (by simp)] at hstate hcalls hall hvalues
  rw [passBlock_values]
  constructor
  · simpa [Function.comp_def] using hall
  · intro record hmem
    rcases List.mem_append.mp hmem with hmem | hmem
    · exact hvalues record hmem
    · obtain ⟨call, hrest, rfl⟩ := List.mem_map.mp hmem
      rw [hcalls] at hrest
      have hbehind := sequence_le_of_dropWhile (callsOf_sorted graph block) _ call hrest
      refine ⟨List.dropWhile_subset _ hrest, ?_⟩
      simp only
      rw [min_eq_right hbehind, hstate]

/-- A call has the value that its callee has in the state before it. -/
theorem callValues_evaluated {cap : Nat} {call : IndirectCall β} {value : PointsToValue}
    (h : (call, value) ∈ callValues graph cap) : call ∈ graph.calls ∧ call.block ∈ graph.blocks ∧
      value = evaluateOptional graph (stateAt graph call.block
        (inputOf (iterate graph cap).1 call.block)
        (min call.sequence (graph.accesses call.block).length)).pointsTo call.callee := by
  obtain ⟨block, hblock, hmem⟩ := List.mem_flatMap.mp h
  obtain ⟨hlisted, hvalue⟩ := (passBlock_evaluated graph block _).2 _ hmem
  obtain ⟨hcall, rfl⟩ := mem_callsOf.mp hlisted
  exact ⟨hcall, hblock, hvalue⟩

/-- Every call of a block is evaluated. -/
theorem callValues_exists (cap : Nat) {call : IndirectCall β} (hcall : call ∈ graph.calls)
    (hblock : call.block ∈ graph.blocks) : ∃ value, (call, value) ∈ callValues graph cap := by
  have hmem : call ∈ callsOf graph call.block := mem_callsOf.mpr ⟨hcall, rfl⟩
  rw [← (passBlock_evaluated graph call.block (inputOf (iterate graph cap).1 call.block)).1] at hmem
  obtain ⟨⟨found, value⟩, hfound, rfl⟩ := List.mem_map.mp hmem
  exact ⟨value, List.mem_flatMap.mpr ⟨_, hblock, hfound⟩⟩

end Calls

end CppContextEngine.Analyzer
