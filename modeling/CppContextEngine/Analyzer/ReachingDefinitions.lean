import CppContextEngine.Analyzer.DataFlow

/-!
# Reaching definitions

A definition reaches an access along a walk through the graph that defines its
location nowhere in between.  Once the sweeps have settled, the evidence names
just the definitions that reach; and a flag is never set before the definitions
under it are all that an entry walk can end with.
-/

namespace CppContextEngine.Analyzer

open CppContextEngine.Foundation

/-! ## Walks -/

section Walks

variable {β : Type} (graph : FlowGraph β)

/-- A place before an access of a block, or behind its last one. -/
abbrev Point (β : Type) := β × Nat

/-- The accesses that are passed on the way from one point to another. -/
inductive Walk (start : Point β) : Point β → List (Access × AccessKey β) → Prop where
  | stay : Walk start start []
  | access {block : β} {sequence : Nat} {access : Access} {trace : List (Access × AccessKey β)} :
      Walk start (block, sequence) trace → (graph.accesses block)[sequence]? = some access →
        Walk start (block, sequence + 1) (trace ++ [(access, (block, sequence))])
  | jump {previous block : β} {trace : List (Access × AccessKey β)} :
      Walk start (previous, (graph.accesses previous).length) trace →
        previous ∈ graph.predecessors block → Walk start (block, 0) trace

/-- The last definition of a location on a walk. -/
def lastDefinition (location : String) (trace : List (Access × AccessKey β)) :
    Option (AccessKey β) :=
  (lastBy (fun passed => decide (passed.1.Defines location)) true trace).map Prod.snd

/-- A walk from behind the definition `source` to `point` without another one. -/
def Reaches (location : String) (source : AccessKey β) (point : Point β) : Prop :=
  ∃ access trace, (graph.accesses source.1)[source.2]? = some access ∧ access.Defines location ∧
    Walk graph (source.1, source.2 + 1) point trace ∧ ∀ passed ∈ trace, ¬ passed.1.Defines location

variable {graph}

theorem lastDefinition_append (location : String) (trace : List (Access × AccessKey β))
    (passed : Access × AccessKey β) : lastDefinition location (trace ++ [passed]) =
      if passed.1.Defines location then some passed.2 else lastDefinition location trace := by
  unfold lastDefinition
  rw [lastBy_append]
  split <;> rename_i hdefines <;> simp [lastBy, hdefines]

theorem Walk.start_mem {start point : Point β} {trace : List (Access × AccessKey β)}
    (h : Walk graph start point trace) (hpoint : point.1 ∈ graph.blocks) :
    start.1 ∈ graph.blocks := by
  induction h with
  | stay => exact hpoint
  | access _ _ ih => exact ih hpoint
  | jump _ hprevious ih => exact ih (graph.predecessors_mem _ _ hprevious)

theorem Reaches.access {location : String} {source : AccessKey β} {block : β} {sequence : Nat}
    {access : Access} (h : Reaches graph location source (block, sequence))
    (haccess : (graph.accesses block)[sequence]? = some access)
    (hdefines : ¬ access.Defines location) :
    Reaches graph location source (block, sequence + 1) := by
  obtain ⟨definition, trace, hsource, hdefinition, hwalk, htrace⟩ := h
  refine ⟨definition, _, hsource, hdefinition, .access hwalk haccess, fun passed hpassed => ?_⟩
  rcases List.mem_append.mp hpassed with hpassed | hpassed
  · exact htrace passed hpassed
  · rw [List.mem_singleton.mp hpassed]
    exact hdefines

theorem Reaches.jump {location : String} {source : AccessKey β} {previous block : β}
    (h : Reaches graph location source (previous, (graph.accesses previous).length))
    (hprevious : previous ∈ graph.predecessors block) :
    Reaches graph location source (block, 0) := by
  obtain ⟨definition, trace, hsource, hdefinition, hwalk, htrace⟩ := h
  exact ⟨definition, trace, hsource, hdefinition, .jump hwalk hprevious, htrace⟩

end Walks

/-! ## States -/

section States

variable {β : Type} {graph : FlowGraph β} {block : β} {state : DataFlowState β}
variable {location : String}

theorem getElem?_tabulate {γ : Type} (keys : List String) (make : String → γ) (key : String) :
    (tabulate keys make)[key]? = if key ∈ keys then some (make key) else none := by
  unfold tabulate
  rw [Table.getElem?_foldl_insert fun key => key]
  split
  · rename_i hmem
    obtain ⟨found, hfound⟩ := Option.isSome_iff_exists.mp
      ((lastBy_isSome_iff (fun key : String => key)).mpr ⟨key, hmem, rfl⟩)
    have hkey : found = key := lastBy_key (fun key : String => key) hfound
    rw [hfound, hkey]
    rfl
  · rename_i hmem
    have habsent : lastBy (fun key : String => key) key keys = none := by
      rw [← Option.not_isSome_iff_eq_none, lastBy_isSome_iff]
      rintro ⟨found, hfound, rfl⟩
      exact hmem hfound
    simp [habsent]

theorem definitionsOf_applyAccess (hfull : graph.navigationOnly = false) (access : Access)
    (sequence : Nat) : (applyAccess graph block state (access, sequence)).definitionsOf location =
      if access.Defines location then {(block, sequence)} else state.definitionsOf location := by
  unfold applyAccess DataFlowState.definitionsOf Access.Defines
  by_cases hkind : access.kind.isDefinition = true
  · by_cases hlocation : access.location = location <;> simp [hkind, hfull, hlocation]
  · simp [hkind]

theorem isComplete_applyAccess (hfull : graph.navigationOnly = false) (access : Access)
    (sequence : Nat) : (applyAccess graph block state (access, sequence)).isComplete location =
      if access.Defines location then true else state.isComplete location := by
  unfold applyAccess DataFlowState.isComplete Access.Defines
  by_cases hkind : access.kind.isDefinition = true
  · by_cases hlocation : access.location = location <;> simp [hkind, hfull, hlocation]
  · simp [hkind]

@[simp] theorem stateAt_zero : stateAt graph block state 0 = state := by
  simp [stateAt]

theorem stateAt_succ {sequence : Nat} {access : Access}
    (haccess : (graph.accesses block)[sequence]? = some access) :
    stateAt graph block state (sequence + 1) =
      applyAccess graph block (stateAt graph block state sequence) (access, sequence) := by
  have hrecord : (graph.accesses block).zipIdx[sequence]? = some (access, sequence) := by
    simp [haccess]
  unfold stateAt
  rw [List.take_add_one, hrecord, List.foldl_append]
  rfl

theorem transfer_eq_stateAt :
    transfer graph block state = stateAt graph block state (graph.accesses block).length := by
  unfold transfer stateAt
  rw [List.take_of_length_le (by simp)]

theorem mem_definitions_keys {source : AccessKey β} (h : source ∈ state.definitionsOf location) :
    location ∈ state.definitions.keys := by
  rw [Table.mem_keys_iff]
  unfold DataFlowState.definitionsOf at h
  cases hget : state.definitions[location]? with
  | none => simp [hget] at h
  | some definitions => exact ⟨definitions, rfl⟩

theorem mem_complete_keys (h : state.isComplete location = true) :
    location ∈ state.definitionsComplete.keys := by
  rw [Table.mem_keys_iff]
  unfold DataFlowState.isComplete at h
  cases hget : state.definitionsComplete[location]? with
  | none => simp [hget] at h
  | some complete => exact ⟨complete, rfl⟩

variable [DecidableEq β]

theorem mem_joinDefinitions {states : List (DataFlowState β)} {source : AccessKey β} :
    source ∈ joinDefinitions states location ↔
      ∃ state ∈ states, source ∈ state.definitionsOf location := by
  have hfold (items : List (DataFlowState β)) (joined : Finset (AccessKey β)) :
      source ∈ items.foldl (fun joined state => joined ∪ state.definitionsOf location) joined ↔
        source ∈ joined ∨ ∃ state ∈ items, source ∈ state.definitionsOf location :=
    foldl_adds (P := fun joined => source ∈ joined)
      (Q := fun state => source ∈ state.definitionsOf location)
      (fun joined state => Finset.mem_union) items joined
  unfold joinDefinitions
  rw [hfold]
  simp

theorem definitionsOf_joinStates {states : List (DataFlowState β)} {incoming : Nat}
    {source : AccessKey β} :
    source ∈ (joinStates false states incoming).definitionsOf location ↔
      ∃ state ∈ states, source ∈ state.definitionsOf location := by
  unfold joinStates DataFlowState.definitionsOf
  simp only [Bool.false_eq_true, ↓reduceIte, getElem?_tabulate]
  split
  · exact mem_joinDefinitions
  · rename_i hkeys
    simp only [Option.getD_none, Finset.notMem_empty, false_iff]
    rintro ⟨state, hstate, hsource⟩
    exact hkeys (List.mem_flatMap.mpr ⟨state, hstate, mem_definitions_keys hsource⟩)

theorem isComplete_joinStates {states : List (DataFlowState β)} {incoming : Nat} :
    (joinStates false states incoming).isComplete location = true ↔
      states ≠ [] ∧ states.length = incoming ∧
        ∀ state ∈ states, state.isComplete location = true := by
  unfold joinStates
  rw [DataFlowState.isComplete]
  simp only [Bool.false_eq_true, ↓reduceIte, getElem?_tabulate]
  split
  · rename_i hkeys
    have hne : states ≠ [] := by
      rintro rfl
      simp at hkeys
    simp [hne]
  · rename_i hkeys
    simp only [Option.getD_none, Bool.false_eq_true, false_iff, not_and]
    rintro hne - hall
    obtain ⟨state, hstate⟩ := List.exists_mem_of_ne_nil states hne
    exact hkeys (List.mem_append_right _ (List.mem_flatMap.mpr
      ⟨state, hstate, mem_complete_keys (hall state hstate)⟩))

/-! ## Joins over predecessors -/

variable {values : Values β (BlockStates β)}

theorem definitionsOf_joinState (hfull : graph.navigationOnly = false) {source : AccessKey β} :
    source ∈ (joinState graph values block).definitionsOf location ↔
      ∃ previous ∈ graph.predecessors block, ∃ states, values previous = some states ∧
        source ∈ states.2.definitionsOf location := by
  unfold joinState
  rw [hfull, definitionsOf_joinStates]
  simp only [List.mem_filterMap, Option.map_eq_some_iff]
  constructor
  · rintro ⟨_, ⟨previous, hprevious, states, hstates, rfl⟩, hsource⟩
    exact ⟨previous, hprevious, states, hstates, hsource⟩
  · rintro ⟨previous, hprevious, states, hstates, hsource⟩
    exact ⟨_, ⟨previous, hprevious, states, hstates, rfl⟩, hsource⟩

/-- A flag is set if every predecessor was processed and has set it. -/
theorem isComplete_joinState (hfull : graph.navigationOnly = false) :
    (joinState graph values block).isComplete location = true ↔
      graph.predecessors block ≠ [] ∧ ∀ previous ∈ graph.predecessors block,
        ∃ states, values previous = some states ∧ states.2.isComplete location = true := by
  unfold joinState
  rw [hfull, isComplete_joinStates]
  generalize graph.predecessors block = incoming
  have hlength : (incoming.filterMap fun previous => (values previous).map Prod.snd).length =
      incoming.length ↔ ∀ previous ∈ incoming, ∃ states, values previous = some states := by
    rw [List.filterMap_length_eq_length]
    simp only [Option.isSome_map, Option.isSome_iff_exists]
  rw [hlength]
  constructor
  · rintro ⟨hne, hall, hcomplete⟩
    refine ⟨?_, fun previous hprevious => ?_⟩
    · rintro rfl
      exact hne rfl
    · obtain ⟨states, hstates⟩ := hall previous hprevious
      refine ⟨states, hstates, hcomplete _ (List.mem_filterMap.mpr ⟨previous, hprevious, ?_⟩)⟩
      rw [hstates]
      rfl
  · rintro ⟨hne, hall⟩
    refine ⟨?_, fun previous hprevious => ?_, fun state hstate => ?_⟩
    · obtain ⟨previous, hprevious⟩ := List.exists_mem_of_ne_nil incoming hne
      obtain ⟨states, hstates, -⟩ := hall previous hprevious
      have hmem : states.2 ∈ incoming.filterMap fun previous => (values previous).map Prod.snd :=
        List.mem_filterMap.mpr ⟨previous, hprevious, by rw [hstates]; rfl⟩
      exact List.ne_nil_of_mem hmem
    · obtain ⟨states, hstates, -⟩ := hall previous hprevious
      exact ⟨states, hstates⟩
    · obtain ⟨previous, hprevious, hstate⟩ := List.mem_filterMap.mp hstate
      obtain ⟨states, hstates, hcomplete⟩ := hall previous hprevious
      rw [hstates] at hstate
      cases hstate
      exact hcomplete

end States

/-! ## What the states say about the walks -/

section Holds

variable {β : Type} {graph : FlowGraph β}

/-- The definitions of a state reach its point, and a flag promises that they are all. -/
structure HoldsAt (graph : FlowGraph β) (state : DataFlowState β) (point : Point β) : Prop where
  reaches : ∀ {location source}, source ∈ state.definitionsOf location →
    Reaches graph location source point
  covers : ∀ {location}, state.isComplete location = true →
    ∀ {trace}, Walk graph (graph.entry, 0) point trace →
      ∃ source ∈ state.definitionsOf location, lastDefinition location trace = some source

theorem HoldsAt.empty (point : Point β) : HoldsAt graph {} point where
  reaches h := by simp [DataFlowState.definitionsOf] at h
  covers h := by simp [DataFlowState.isComplete] at h

variable {block : β} {state : DataFlowState β}

/-- The walks to the place behind an access are those to the place before it. -/
theorem Walk.before_access {start : Point β} {sequence : Nat}
    {trace : List (Access × AccessKey β)} (h : Walk graph start (block, sequence + 1) trace)
    (hstart : start ≠ (block, sequence + 1)) :
    ∃ access before, (graph.accesses block)[sequence]? = some access ∧
      Walk graph start (block, sequence) before ∧
        trace = before ++ [(access, (block, sequence))] := by
  cases h with
  | stay => exact absurd rfl hstart
  | access hwalk haccess => exact ⟨_, _, haccess, hwalk, rfl⟩

/-- The walks to a block that they do not start in come from its predecessors. -/
theorem Walk.before_jump {start : Point β} {trace : List (Access × AccessKey β)}
    (h : Walk graph start (block, 0) trace) (hstart : start ≠ (block, 0)) :
    ∃ previous ∈ graph.predecessors block,
      Walk graph start (previous, (graph.accesses previous).length) trace := by
  cases h with
  | stay => exact absurd rfl hstart
  | jump hwalk hprevious => exact ⟨_, hprevious, hwalk⟩

theorem HoldsAt.access (hfull : graph.navigationOnly = false) {sequence : Nat} {access : Access}
    (h : HoldsAt graph state (block, sequence))
    (haccess : (graph.accesses block)[sequence]? = some access) :
    HoldsAt graph (applyAccess graph block state (access, sequence)) (block, sequence + 1) where
  reaches {location source} hsource := by
    rw [definitionsOf_applyAccess hfull] at hsource
    split at hsource
    · rename_i hdefines
      rw [Finset.mem_singleton.mp hsource]
      exact ⟨access, [], haccess, hdefines, .stay, by simp⟩
    · rename_i hdefines
      exact (h.reaches hsource).access haccess hdefines
  covers {location} hcomplete trace hwalk := by
    obtain ⟨passed, before, hpassed, hbefore, rfl⟩ := hwalk.before_access (by simp)
    rw [haccess] at hpassed
    cases hpassed
    rw [isComplete_applyAccess hfull] at hcomplete
    rw [definitionsOf_applyAccess hfull, lastDefinition_append]
    split at hcomplete
    · rename_i hdefines
      simp [hdefines]
    · rename_i hdefines
      simp only [hdefines, ↓reduceIte]
      exact h.covers hcomplete hbefore

theorem HoldsAt.stateAt (hfull : graph.navigationOnly = false)
    (h : HoldsAt graph state (block, 0)) {sequence : Nat}
    (hsequence : sequence ≤ (graph.accesses block).length) :
    HoldsAt graph (stateAt graph block state sequence) (block, sequence) := by
  induction sequence with
  | zero =>
      rw [stateAt_zero]
      exact h
  | succ sequence ih =>
      have haccess : (graph.accesses block)[sequence]? = some (graph.accesses block)[sequence] :=
        List.getElem?_eq_getElem hsequence
      rw [stateAt_succ haccess]
      exact (ih (by omega)).access hfull haccess

variable [DecidableEq β]

/-- Every state that was stored holds at its point. -/
def Sound (graph : FlowGraph β) (values : Values β (BlockStates β)) : Prop :=
  ∀ block states, values block = some states → HoldsAt graph states.1 (block, 0) ∧
    HoldsAt graph states.2 (block, (graph.accesses block).length)

variable {values : Values β (BlockStates β)}

theorem Sound.joinState (hfull : graph.navigationOnly = false) (h : Sound graph values) :
    HoldsAt graph (joinState graph values block) (block, 0) where
  reaches {location source} hsource := by
    obtain ⟨previous, hprevious, states, hstates, hsource⟩ :=
      (definitionsOf_joinState hfull).mp hsource
    exact ((h previous states hstates).2.reaches hsource).jump hprevious
  covers {location} hcomplete trace hwalk := by
    obtain ⟨hne, hall⟩ := (isComplete_joinState hfull).mp hcomplete
    have hentry : (graph.entry, 0) ≠ (block, 0) := by
      rintro hsame
      cases hsame
      exact hne graph.entry_first
    obtain ⟨previous, hprevious, hwalk⟩ := hwalk.before_jump hentry
    obtain ⟨states, hstates, hcomplete⟩ := hall previous hprevious
    obtain ⟨source, hsource, hlast⟩ := (h previous states hstates).2.covers hcomplete hwalk
    exact ⟨source, (definitionsOf_joinState hfull).mpr
      ⟨previous, hprevious, states, hstates, hsource⟩, hlast⟩

theorem sound_preserved (hfull : graph.navigationOnly = false) :
    Preserves (blockStates graph) graph.blocks (Sound graph) := by
  intro values visited _ h block states hstates
  by_cases hvisited : block = visited
  · subst hvisited
    rw [Function.update_self] at hstates
    cases hstates
    have hinput : HoldsAt graph (joinState graph values block) (block, 0) := h.joinState hfull
    refine ⟨hinput, ?_⟩
    unfold blockStates
    simp only
    rw [transfer_eq_stateAt]
    exact hinput.stateAt hfull le_rfl
  · rw [Function.update_of_ne hvisited] at hstates
    exact h block states hstates

theorem iterate_sound (hfull : graph.navigationOnly = false) (cap : Nat) :
    Sound graph (iterate graph cap).1 := by
  apply settle_invariant (sound_preserved hfull)
  intro block states hstates
  cases hstates

/-- Whatever the cap is, the input of a block holds where the block begins. -/
theorem holdsAt_inputOf (hfull : graph.navigationOnly = false) (cap : Nat) (block : β) :
    HoldsAt graph (inputOf (iterate graph cap).1 block) (block, 0) := by
  unfold inputOf
  cases hvalue : (iterate graph cap).1 block with
  | none => exact .empty _
  | some states => exact (iterate_sound hfull cap block states hvalue).1

/-! ## Stable values miss no walk -/

theorem inputOf_of_stable (h : Stable (blockStates graph) graph.blocks values)
    (hblock : block ∈ graph.blocks) : inputOf values block = joinState graph values block := by
  unfold inputOf
  rw [h block hblock]
  rfl

theorem output_of_stable (h : Stable (blockStates graph) graph.blocks values)
    (hblock : block ∈ graph.blocks) : values block =
      some (inputOf values block,
        stateAt graph block (inputOf values block) (graph.accesses block).length) := by
  rw [inputOf_of_stable h hblock, ← transfer_eq_stateAt]
  exact h block hblock

/-- By induction on the walk from behind the definition. -/
theorem definitionsOf_of_walk (hfull : graph.navigationOnly = false)
    (h : Stable (blockStates graph) graph.blocks values) {location : String}
    {source : AccessKey β} {access : Access}
    (hsource : (graph.accesses source.1)[source.2]? = some access)
    (hdefines : access.Defines location) {point : Point β} {trace : List (Access × AccessKey β)}
    (hwalk : Walk graph (source.1, source.2 + 1) point trace)
    (htrace : ∀ passed ∈ trace, ¬ passed.1.Defines location) (hpoint : point.1 ∈ graph.blocks) :
    source ∈ (stateAt graph point.1 (inputOf values point.1) point.2).definitionsOf location := by
  induction hwalk with
  | stay =>
      rw [stateAt_succ hsource, definitionsOf_applyAccess hfull, if_pos hdefines]
      exact Finset.mem_singleton_self _
  | @access block sequence passed trace _ hpassed ih =>
      have hkeep : ¬ passed.Defines location :=
        htrace (passed, (block, sequence)) (List.mem_append_right _ (List.mem_singleton_self _))
      rw [stateAt_succ hpassed, definitionsOf_applyAccess hfull, if_neg hkeep]
      exact ih (fun other hother => htrace other (List.mem_append_left _ hother)) hpoint
  | @jump previous block trace _ hprevious ih =>
      have hmem := graph.predecessors_mem _ _ hprevious
      rw [stateAt_zero, inputOf_of_stable h hpoint, definitionsOf_joinState hfull]
      exact ⟨previous, hprevious, _, output_of_stable h hmem, ih htrace hmem⟩

/-! ## Evidence -/

/-- The pass over the first accesses of a block. -/
theorem passBlock_step (hfull : graph.navigationOnly = false) (block : β)
    (state : DataFlowState β) (calls : List (IndirectCall β)) {count : Nat}
    (hcount : count ≤ (graph.accesses block).length) :
    let pass := ((graph.accesses block).zipIdx.take count).foldl (BlockPass.step graph block)
      { state, calls }
    pass.state = stateAt graph block state count ∧
      (∀ found, found ∈ pass.evidence ↔ ∃ sequence < count, ∃ access,
        (graph.accesses block)[sequence]? = some access ∧
          found ∈ accessEvidence block (stateAt graph block state sequence) (access, sequence)) ∧
      (pass.incomplete = true ↔ ∃ sequence < count, ∃ access,
        (graph.accesses block)[sequence]? = some access ∧
          definitionsIncomplete (stateAt graph block state sequence) access = true) := by
  induction count with
  | zero => simp
  | succ count ih =>
      have haccess : (graph.accesses block)[count]? = some (graph.accesses block)[count] :=
        List.getElem?_eq_getElem hcount
      have hrecord : (graph.accesses block).zipIdx[count]? =
          some ((graph.accesses block)[count], count) := by
        simp [haccess]
      obtain ⟨hstate, hevidence, hincomplete⟩ := ih (by omega)
      have hsplit (P : Nat → Access → Prop) :
          (∃ sequence < count + 1, ∃ access, (graph.accesses block)[sequence]? = some access ∧
              P sequence access) ↔
            (∃ sequence < count, ∃ access, (graph.accesses block)[sequence]? = some access ∧
              P sequence access) ∨ P count (graph.accesses block)[count] := by
        constructor
        · rintro ⟨sequence, hsequence, access, hget, hP⟩
          rcases Nat.lt_succ_iff_lt_or_eq.mp hsequence with hsequence | rfl
          · exact .inl ⟨sequence, hsequence, access, hget, hP⟩
          · rw [haccess] at hget
            cases hget
            exact .inr hP
        · rintro (⟨sequence, hsequence, hrest⟩ | hP)
          · exact ⟨sequence, by omega, hrest⟩
          · exact ⟨count, by omega, _, haccess, hP⟩
      rw [List.take_add_one, hrecord, List.foldl_append]
      simp only [Option.toList_some, List.foldl_cons, List.foldl_nil, BlockPass.step,
        BlockPass.evaluateCalls, hfull, Bool.false_eq_true, ↓reduceIte, hstate, hsplit]
      refine ⟨(stateAt_succ haccess).symm, fun found => ?_, ?_⟩
      · rw [Finset.mem_union, hevidence]
      · rw [Bool.or_eq_true, hincomplete]
        simp

/-- Evidence comes from the state before its target. -/
theorem mem_evidence (hfull : graph.navigationOnly = false) {cap : Nat}
    {found : AccessEvidence β} : found ∈ evidence graph cap block ↔
      ∃ sequence access, (graph.accesses block)[sequence]? = some access ∧
        found ∈ accessEvidence block
          (stateAt graph block (inputOf (iterate graph cap).1 block) sequence)
          (access, sequence) := by
  unfold evidence passBlock
  have hpass := passBlock_step hfull block (inputOf (iterate graph cap).1 block)
    ((graph.calls.filter fun call => call.block = block).mergeSort
      fun first second => first.sequence ≤ second.sequence) (le_refl (graph.accesses block).length)
  rw [List.take_of_length_le (by simp)] at hpass
  refine (hpass.2.1 found).trans ?_
  constructor
  · rintro ⟨sequence, -, access, hget, hfound⟩
    exact ⟨sequence, access, hget, hfound⟩
  · rintro ⟨sequence, access, hget, hfound⟩
    exact ⟨sequence, (List.getElem?_eq_some_iff.mp hget).1, access, hget, hfound⟩

/-- The reason comes from a read whose flag is not set. -/
theorem reachingDefinitionIncomplete_iff (hfull : graph.navigationOnly = false) {cap : Nat} :
    reachingDefinitionIncomplete graph cap = true ↔ ∃ block ∈ graph.blocks, ∃ sequence access,
      (graph.accesses block)[sequence]? = some access ∧ definitionsIncomplete
        (stateAt graph block (inputOf (iterate graph cap).1 block) sequence) access = true := by
  unfold reachingDefinitionIncomplete passBlock
  rw [List.any_eq_true]
  refine exists_congr fun block => and_congr_right fun _ => ?_
  have hpass := passBlock_step hfull block (inputOf (iterate graph cap).1 block)
    ((graph.calls.filter fun call => call.block = block).mergeSort
      fun first second => first.sequence ≤ second.sequence) (le_refl (graph.accesses block).length)
  rw [List.take_of_length_le (by simp)] at hpass
  refine hpass.2.2.trans ?_
  constructor
  · rintro ⟨sequence, -, access, hget, hincomplete⟩
    exact ⟨sequence, access, hget, hincomplete⟩
  · rintro ⟨sequence, access, hget, hincomplete⟩
    exact ⟨sequence, (List.getElem?_eq_some_iff.mp hget).1, access, hget, hincomplete⟩

theorem mem_accessEvidence {access : Access} {sequence : Nat}
    {found : AccessEvidence β} (hfound : found ∈ accessEvidence block state (access, sequence)) :
    found.source ∈ state.definitionsOf access.location ∧ found.target = (block, sequence) ∧
      (found.certainty = .certain → state.isComplete access.location = true ∧
        state.definitionsOf access.location = {found.source}) := by
  unfold accessEvidence at hfound
  obtain ⟨source, hsource, rfl⟩ := Finset.mem_image.mp hfound
  refine ⟨hsource, rfl, fun hcertain => ?_⟩
  simp only at hcertain
  split at hcertain
  · rename_i hcomplete
    obtain ⟨only, honly⟩ := Finset.card_eq_one.mp hcomplete.2
    rw [honly, Finset.mem_singleton] at hsource
    exact ⟨hcomplete.1, by rw [honly, hsource]⟩
  · cases hcertain

/-- After convergence the evidence names the definitions that reach an access, and under any cap
certain evidence names the last definition of every walk from the entry. -/
theorem reachingDefinitions_exact (hfull : graph.navigationOnly = false) (cap : Nat) :
    ((iterate graph cap).2 = true → ∀ block ∈ graph.blocks, ∀ sequence access,
      (graph.accesses block)[sequence]? = some access → ∀ source,
        (∃ found ∈ evidence graph cap block,
          found.source = source ∧ found.target = (block, sequence)) ↔
            Reaches graph access.location source (block, sequence)) ∧
    ∀ block, ∀ found ∈ evidence graph cap block, found.certainty = .certain →
      ∃ access, (graph.accesses block)[found.target.2]? = some access ∧
        ∀ trace, Walk graph (graph.entry, 0) found.target trace →
          lastDefinition access.location trace = some found.source := by
  constructor
  · intro hconverged block hblock sequence access hget source
    constructor
    · rintro ⟨found, hfound, rfl, htarget⟩
      obtain ⟨place, passed, hplace, hfound⟩ := (mem_evidence hfull).mp hfound
      obtain ⟨hsource, hplaced, -⟩ := mem_accessEvidence hfound
      rw [hplaced] at htarget
      cases htarget
      rw [hget] at hplace
      cases hplace
      have hat := (holdsAt_inputOf hfull cap block).stateAt hfull
        (List.getElem?_eq_some_iff.mp hget).1.le
      exact hat.reaches hsource
    · rintro ⟨definition, trace, hsource, hdefines, hwalk, htrace⟩
      have hstable := settle_stable cap hconverged
      have hmem := definitionsOf_of_walk hfull hstable hsource hdefines hwalk htrace hblock
      refine ⟨_, (mem_evidence hfull).mpr ⟨sequence, access, hget,
        Finset.mem_image_of_mem _ hmem⟩, rfl, rfl⟩
  · intro block found hfound hcertain
    obtain ⟨sequence, access, hget, hfound⟩ := (mem_evidence hfull).mp hfound
    obtain ⟨-, htarget, hunique⟩ := mem_accessEvidence hfound
    obtain ⟨hcomplete, honly⟩ := hunique hcertain
    have hat := (holdsAt_inputOf hfull cap block).stateAt hfull
      (List.getElem?_eq_some_iff.mp hget).1.le
    rw [htarget]
    refine ⟨access, hget, fun trace hwalk => ?_⟩
    obtain ⟨source, hsource, hlast⟩ := hat.covers hcomplete hwalk
    rw [honly, Finset.mem_singleton] at hsource
    rw [hlast, hsource]

end Holds

/-- An entry, a loop and an exit, with the accesses of each. -/
def singleLoop (accesses : Nat → List Access) : FlowGraph Nat :=
  .ofEdges [0, 1, 2] 2 [(2, 1), (1, 1), (1, 0)] accesses (by decide) (by decide) (by decide)
    (by decide)

/-- A variable that block 2 initializes, a loop at block 1 counts and block 0 returns. -/
def countingLoop : FlowGraph Nat :=
  singleLoop fun
    | 0 => [{ location := "i", kind := .returnValue }]
    | 1 => [{ location := "i", kind := .read }, { location := "i", kind := .assignment }]
    | 2 => [{ location := "i", kind := .initialization }]
    | _ => []

theorem reachingDefinitions_exact_countingLoop :
    Reaches countingLoop "i" (2, 0) (1, 0) ∧ Reaches countingLoop "i" (1, 1) (1, 0) := by
  have hexact := (@reachingDefinitions_exact _ countingLoop _ rfl 64).1 (by decide +kernel)
    1 (by decide) 0 _ rfl
  constructor
  · apply (hexact (2, 0)).mp
    decide +kernel
  · apply (hexact (1, 1)).mp
    decide +kernel

end CppContextEngine.Analyzer
