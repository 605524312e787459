import CppContextEngine.Foundation.Acyclic
import CppContextEngine.Analyzer.ReachingDefinitions

/-!
# When the flag of a location is set

The flags start unset and can only climb, so a flag is set just when every way
back from it ends at a definition: a loop that does not define the location
keeps the flag of everything behind it unset.
-/

namespace CppContextEngine.Analyzer

open CppContextEngine.Foundation

/-! ## Clear walks -/

section Clear

variable {β : Type} (graph : FlowGraph β) (location : String)

/-- A walk that defines the location nowhere. -/
def Clear (start point : Point β) : Prop :=
  ∃ trace, Walk graph start point trace ∧ ∀ passed ∈ trace, ¬ passed.1.Defines location

/-- A loop of the graph that leads to the point and defines the location nowhere on the way. -/
def ClearLoop (point : Point β) : Prop :=
  ∃ head, ∃ previous ∈ graph.predecessors head,
    Clear graph location (head, 0) (previous, (graph.accesses previous).length) ∧
      Clear graph location (head, 0) point

/-- A predecessor that does not define the location. -/
def ClearStep (previous block : β) : Prop :=
  previous ∈ graph.predecessors block ∧
    ∀ access ∈ graph.accesses previous, ¬ access.Defines location

variable {graph location}

theorem Walk.trans {first second third : Point β} {before behind : List (Access × AccessKey β)}
    (hfirst : Walk graph first second before) (hsecond : Walk graph second third behind) :
    Walk graph first third (before ++ behind) := by
  induction hsecond with
  | stay =>
      rw [List.append_nil]
      exact hfirst
  | access _ haccess ih =>
      rw [← List.append_assoc]
      exact .access ih haccess
  | jump _ hprevious ih => exact .jump ih hprevious

theorem lastDefinition_eq_none {trace : List (Access × AccessKey β)} :
    lastDefinition location trace = none ↔ ∀ passed ∈ trace, ¬ passed.1.Defines location := by
  induction trace using List.reverseRecOn with
  | nil => simp [lastDefinition, lastBy]
  | append_singleton trace passed ih =>
      rw [lastDefinition_append]
      split
      · rename_i hdefines
        simp only [reduceCtorEq, false_iff]
        exact fun h => h passed (List.mem_append_right _ (List.mem_singleton_self _)) hdefines
      · rename_i hdefines
        rw [ih, List.forall_mem_append, List.forall_mem_singleton]
        exact (and_iff_left hdefines).symm

theorem lastDefinition_of_clear {before behind : List (Access × AccessKey β)}
    (hbehind : ∀ passed ∈ behind, ¬ passed.1.Defines location) :
    lastDefinition location (before ++ behind) = lastDefinition location before := by
  induction behind using List.reverseRecOn with
  | nil => rw [List.append_nil]
  | append_singleton behind passed ih =>
      obtain ⟨hbehind, hpassed⟩ := List.forall_mem_append.mp hbehind
      rw [← List.append_assoc, lastDefinition_append,
        if_neg (hpassed passed (List.mem_singleton_self _))]
      exact ih hbehind

theorem Clear.refl (point : Point β) : Clear graph location point point :=
  ⟨[], .stay, by simp⟩

theorem Clear.jump {start : Point β} {previous block : β}
    (h : Clear graph location start (previous, (graph.accesses previous).length))
    (hprevious : previous ∈ graph.predecessors block) : Clear graph location start (block, 0) := by
  obtain ⟨trace, hwalk, htrace⟩ := h
  exact ⟨trace, .jump hwalk hprevious, htrace⟩

theorem Clear.accesses {start : Point β} {block : β} (h : Clear graph location start (block, 0))
    {count : Nat} (hcount : count ≤ (graph.accesses block).length)
    (hclear : ∀ access ∈ (graph.accesses block).take count, ¬ access.Defines location) :
    Clear graph location start (block, count) := by
  induction count with
  | zero => exact h
  | succ count ih =>
      have haccess : (graph.accesses block)[count]? = some (graph.accesses block)[count] :=
        List.getElem?_eq_getElem hcount
      rw [List.take_add_one, haccess] at hclear
      obtain ⟨hbefore, hlast⟩ := List.forall_mem_append.mp hclear
      obtain ⟨trace, hwalk, htrace⟩ := ih (by omega) hbefore
      refine ⟨_, .access hwalk haccess, List.forall_mem_append.mpr ⟨htrace, ?_⟩⟩
      simpa using hlast

/-- A walk from the beginning of a block enters the block of each point at its beginning. -/
theorem Clear.block_start {head : β} {point : Point β} (h : Clear graph location (head, 0) point) :
    Clear graph location (head, 0) (point.1, 0) ∧
      ∀ access ∈ (graph.accesses point.1).take point.2, ¬ access.Defines location := by
  obtain ⟨trace, hwalk, htrace⟩ := h
  induction hwalk with
  | stay => exact ⟨.refl _, by simp⟩
  | @access block sequence access trace _ haccess ih =>
      obtain ⟨htrace, hlast⟩ := List.forall_mem_append.mp htrace
      obtain ⟨hstart, hclear⟩ := ih htrace
      refine ⟨hstart, ?_⟩
      simp only [List.take_add_one, haccess]
      exact List.forall_mem_append.mpr ⟨hclear, by simpa using hlast⟩
  | jump hwalk hprevious _ => exact ⟨⟨_, .jump hwalk hprevious, htrace⟩, by simp⟩

theorem ClearStep.extend {start : Point β} {previous block : β}
    (h : Clear graph location start (previous, 0))
    (hstep : ClearStep graph location previous block) : Clear graph location start (block, 0) := by
  apply Clear.jump _ hstep.1
  apply h.accesses le_rfl
  rw [List.take_length]
  exact hstep.2

/-- The clear walks between the beginnings of blocks are the chains of clear steps. -/
theorem clear_iff_steps {head block : β} : Clear graph location (head, 0) (block, 0) ↔
    Relation.ReflTransGen (ClearStep graph location) head block := by
  constructor
  · rintro ⟨trace, hwalk, htrace⟩
    suffices hpoint : ∀ point trace, Walk graph (head, 0) point trace →
        (∀ passed ∈ trace, ¬ passed.1.Defines location) →
          Relation.ReflTransGen (ClearStep graph location) head point.1 from
      hpoint _ _ hwalk htrace
    intro point trace hwalk htrace
    induction hwalk with
    | stay => exact .refl
    | access _ _ ih => exact ih (List.forall_mem_append.mp htrace).1
    | @jump previous block trace hwalk hprevious ih =>
        have hclear := (Clear.block_start ⟨trace, hwalk, htrace⟩).2
        rw [List.take_length] at hclear
        exact (ih htrace).tail ⟨hprevious, hclear⟩
  · intro h
    induction h with
    | refl => exact .refl _
    | tail _ hstep ih => exact ClearStep.extend ih hstep

theorem clearLoop_of_transGen {head : β} {point : Point β}
    (hloop : Relation.TransGen (ClearStep graph location) head head)
    (h : Clear graph location (head, 0) point) : ClearLoop graph location point := by
  obtain ⟨previous, hchain, hstep⟩ := Relation.TransGen.tail'_iff.mp hloop
  refine ⟨head, previous, hstep.1, ?_, h⟩
  apply (clear_iff_steps.mpr hchain).accesses le_rfl
  rw [List.take_length]
  exact hstep.2

theorem ClearLoop.transGen {point : Point β} (h : ClearLoop graph location point) :
    ∃ head, Relation.TransGen (ClearStep graph location) head head ∧
      Clear graph location (head, 0) point := by
  obtain ⟨head, previous, hprevious, hloop, hpoint⟩ := h
  obtain ⟨hstart, hclear⟩ := hloop.block_start
  rw [List.take_length] at hclear
  exact ⟨head, Relation.TransGen.tail' (clear_iff_steps.mp hstart) ⟨hprevious, hclear⟩, hpoint⟩

end Clear

/-! ## Settled blocks -/

section Settled

variable {β : Type} {graph : FlowGraph β} {location : String} {block : β}

/-- A block whose predecessors define the location or are settled themselves. -/
inductive Settled (graph : FlowGraph β) (location : String) : β → Prop where
  | join {block : β} : graph.predecessors block ≠ [] →
      (∀ previous, ClearStep graph location previous block → Settled graph location previous) →
        Settled graph location block

theorem Settled.acc (h : Settled graph location block) : Acc (ClearStep graph location) block := by
  induction h with
  | join _ _ ih => exact ⟨_, fun previous hprevious => ih previous hprevious⟩

theorem Settled.no_clearLoop (h : Settled graph location block) {sequence : Nat} :
    ¬ ClearLoop graph location (block, sequence) := by
  intro hloop
  obtain ⟨head, hcycle, hpoint⟩ := hloop.transGen
  have hchain := clear_iff_steps.mp hpoint.block_start.1
  exact not_transGen_of_acc (acc_of_reflTransGen hchain h.acc) hcycle

variable {state : DataFlowState β}

theorem isComplete_stateAt (hfull : graph.navigationOnly = false) {count : Nat}
    (hcount : count ≤ (graph.accesses block).length) :
    (stateAt graph block state count).isComplete location = true ↔
      (∃ access ∈ (graph.accesses block).take count, access.Defines location) ∨
        state.isComplete location = true := by
  induction count with
  | zero => simp
  | succ count ih =>
      have haccess : (graph.accesses block)[count]? = some (graph.accesses block)[count] :=
        List.getElem?_eq_getElem hcount
      rw [stateAt_succ haccess, isComplete_applyAccess hfull, List.take_add_one, haccess]
      split
      · rename_i hdefines
        simp only [Option.toList_some, true_iff]
        exact .inl ⟨_, List.mem_append_right _ (List.mem_singleton_self _), hdefines⟩
      · rename_i hdefines
        rw [ih (by omega)]
        simp only [Option.toList_some, List.mem_append, List.mem_singleton]
        constructor
        · rintro (⟨access, hmem, hdefined⟩ | hcomplete)
          · exact .inl ⟨access, .inl hmem, hdefined⟩
          · exact .inr hcomplete
        · rintro (⟨access, hmem | rfl, hdefined⟩ | hcomplete)
          · exact .inl ⟨access, hmem, hdefined⟩
          · exact absurd hdefined hdefines
          · exact .inr hcomplete

variable [DecidableEq β] {values : Values β (BlockStates β)}

/-- A flag of a block that was stored has a reason. -/
def FlagsSettled (graph : FlowGraph β) (values : Values β (BlockStates β)) : Prop :=
  ∀ block states, values block = some states → ∀ location,
    (states.1.isComplete location = true → Settled graph location block) ∧
      (states.2.isComplete location = true →
        (∃ access ∈ graph.accesses block, access.Defines location) ∨ Settled graph location block)

theorem FlagsSettled.joinState (hfull : graph.navigationOnly = false)
    (h : FlagsSettled graph values)
    (hcomplete : (joinState graph values block).isComplete location = true) :
    Settled graph location block := by
  obtain ⟨hne, hall⟩ := (isComplete_joinState hfull).mp hcomplete
  apply Settled.join hne
  intro previous hprevious
  obtain ⟨states, hstates, hflag⟩ := hall previous hprevious.1
  rcases (h previous states hstates location).2 hflag with ⟨access, haccess, hdefines⟩ | hsettled
  · exact absurd hdefines (hprevious.2 access haccess)
  · exact hsettled

theorem flagsSettled_preserved (hfull : graph.navigationOnly = false) :
    Preserves (blockStates graph) graph.blocks (FlagsSettled graph) := by
  intro values visited _ h block states hstates location
  by_cases hvisited : block = visited
  · subst hvisited
    rw [Function.update_self] at hstates
    cases hstates
    unfold blockStates
    simp only
    refine ⟨h.joinState hfull, fun hflag => ?_⟩
    rw [transfer_eq_stateAt, isComplete_stateAt hfull le_rfl, List.take_length] at hflag
    exact hflag.imp_right (h.joinState hfull)
  · rw [Function.update_of_ne hvisited] at hstates
    exact h block states hstates location

theorem settled_of_isComplete (hfull : graph.navigationOnly = false) {cap : Nat}
    (hcomplete : (inputOf (iterate graph cap).1 block).isComplete location = true) :
    Settled graph location block := by
  have hsettled : FlagsSettled graph (iterate graph cap).1 := by
    apply settle_invariant (flagsSettled_preserved hfull)
    intro block states hstates
    cases hstates
  unfold inputOf at hcomplete
  cases hvalue : (iterate graph cap).1 block with
  | none => simp [hvalue, DataFlowState.isComplete] at hcomplete
  | some states =>
      rw [hvalue] at hcomplete
      exact (hsettled block states hvalue location).1 hcomplete

/-- In stable values a settled block has its flag. -/
theorem isComplete_of_settled (hfull : graph.navigationOnly = false)
    (hstable : Stable (blockStates graph) graph.blocks values)
    (h : Settled graph location block) (hblock : block ∈ graph.blocks) :
    (inputOf values block).isComplete location = true := by
  induction h with
  | @join block hne _ ih =>
      rw [inputOf_of_stable hstable hblock, isComplete_joinState hfull]
      refine ⟨hne, fun previous hprevious => ?_⟩
      have hmem := graph.predecessors_mem _ _ hprevious
      refine ⟨_, output_of_stable hstable hmem, ?_⟩
      rw [isComplete_stateAt hfull le_rfl, List.take_length]
      by_cases hdefined : ∃ access ∈ graph.accesses previous, access.Defines location
      · exact .inl hdefined
      · push Not at hdefined
        exact .inr (ih previous ⟨hprevious, hdefined⟩ hmem)

end Settled

/-! ## Uses -/

section Uses

variable {β : Type} {graph : FlowGraph β} {location : String} {block : β}

/-- A walk leads from the entry to the beginning of the block. -/
def Reachable (graph : FlowGraph β) (block : β) : Prop :=
  ∃ trace, Walk graph (graph.entry, 0) (block, 0) trace

/-- Every walk from the entry to the point defines the location. -/
def DefinedBefore (graph : FlowGraph β) (location : String) (point : Point β) : Prop :=
  ∀ trace, Walk graph (graph.entry, 0) point trace → (lastDefinition location trace).isSome = true

theorem settled_of_definedBefore (hreach : ∀ block ∈ graph.blocks, Reachable graph block)
    {sequence : Nat} (hblock : block ∈ graph.blocks)
    (hclear : Clear graph location (block, 0) (block, sequence))
    (hdefined : DefinedBefore graph location (block, sequence))
    (hloop : ¬ ClearLoop graph location (block, sequence)) : Settled graph location block := by
  let behind : Set β := {head | head ∈ graph.blocks ∧ Clear graph location (head, 0) (block, 0)}
  have hpoint : ∀ head ∈ behind, Clear graph location (head, 0) (block, sequence) := by
    rintro head ⟨-, first, hfirst, hfree⟩
    obtain ⟨second, hsecond, hrest⟩ := hclear
    exact ⟨_, hfirst.trans hsecond, List.forall_mem_append.mpr ⟨hfree, hrest⟩⟩
  have hclosed : ∀ previous, ∀ head ∈ behind, ClearStep graph location previous head →
      previous ∈ behind := by
    rintro previous head ⟨-, hhead⟩ hstep
    refine ⟨graph.predecessors_mem _ _ hstep.1, clear_iff_steps.mpr ?_⟩
    exact .head hstep (clear_iff_steps.mp hhead)
  have hfinite : behind.Finite :=
    graph.blocks.finite_toSet.subset fun _ h => h.1
  have hacc := acc_of_acyclic hfinite hclosed fun head hhead hcycle =>
    hloop (clearLoop_of_transGen hcycle (hpoint head hhead))
  suffices hsettled : ∀ head, Acc (ClearStep graph location) head → head ∈ behind →
      Settled graph location head by
    have hself : block ∈ behind := ⟨hblock, .refl _⟩
    exact hsettled block (hacc block hself) hself
  intro head hhead
  induction hhead with
  | intro head _ ih =>
      intro hmem
      refine .join ?_ fun previous hstep => ih previous hstep (hclosed _ _ hmem hstep)
      -- A block that nothing leads to is the entry, and a clear walk from there is undefined.
      intro hnone
      obtain ⟨before, hwalk⟩ := hreach head hmem.1
      have hentry : graph.entry = head := by
        by_contra hne
        obtain ⟨previous, hprevious, -⟩ := hwalk.before_jump fun h => hne (congrArg Prod.fst h)
        rw [hnone] at hprevious
        cases hprevious
      obtain ⟨trace, hwalk, hfree⟩ := hpoint head hmem
      rw [← hentry] at hwalk
      have hsome := hdefined trace hwalk
      rw [lastDefinition_eq_none.mpr hfree] at hsome
      cases hsome

theorem Walk.within {start : Point β} {trace : List (Access × AccessKey β)}
    (h : Walk graph start (block, 0) trace) {count : Nat}
    (hcount : count ≤ (graph.accesses block).length) :
    ∃ trace, Walk graph start (block, count) trace := by
  induction count with
  | zero => exact ⟨trace, h⟩
  | succ count ih =>
      obtain ⟨trace, hwalk⟩ := ih (by omega)
      exact ⟨_, .access hwalk (List.getElem?_eq_getElem hcount)⟩

/-- A definition that reaches a point is the last one of a walk from the entry. -/
theorem Reaches.last (hreach : ∀ block ∈ graph.blocks, Reachable graph block)
    {source : AccessKey β} {point : Point β} (h : Reaches graph location source point)
    (hpoint : point.1 ∈ graph.blocks) : ∃ trace, Walk graph (graph.entry, 0) point trace ∧
      lastDefinition location trace = some source := by
  obtain ⟨access, trace, haccess, hdefines, hwalk, htrace⟩ := h
  obtain ⟨before, hbefore⟩ := hreach source.1 (hwalk.start_mem hpoint)
  obtain ⟨before, hbefore⟩ := hbefore.within (List.getElem?_eq_some_iff.mp haccess).1.le
  refine ⟨_, (hbefore.access haccess).trans hwalk, ?_⟩
  rw [lastDefinition_of_clear htrace, lastDefinition_append, if_pos hdefines]

variable [DecidableEq β]

/-- The flag before an access: every walk defines the location, and no clear loop leads there. -/
theorem isComplete_iff (hfull : graph.navigationOnly = false)
    (hreach : ∀ block ∈ graph.blocks, Reachable graph block) {cap : Nat}
    (hconverged : (iterate graph cap).2 = true) (location : String) (hblock : block ∈ graph.blocks)
    {sequence : Nat} (hsequence : sequence ≤ (graph.accesses block).length) :
    (stateAt graph block (inputOf (iterate graph cap).1 block) sequence).isComplete location =
        true ↔
      DefinedBefore graph location (block, sequence) ∧
        ¬ ClearLoop graph location (block, sequence) := by
  have hholds := (holdsAt_inputOf hfull cap block).stateAt hfull hsequence
  constructor
  · intro hcomplete
    constructor
    · intro trace hwalk
      obtain ⟨source, -, hlast⟩ := hholds.covers hcomplete hwalk
      rw [hlast]
      rfl
    · rcases (isComplete_stateAt hfull hsequence).mp hcomplete with
        ⟨access, haccess, hdefines⟩ | hflag
      · rintro ⟨head, previous, -, -, hpoint⟩
        exact hpoint.block_start.2 access haccess hdefines
      · exact (settled_of_isComplete hfull hflag).no_clearLoop
  · rintro ⟨hdefined, hloop⟩
    rw [isComplete_stateAt hfull hsequence]
    by_cases hdefines : ∃ access ∈ (graph.accesses block).take sequence, access.Defines location
    · exact .inl hdefines
    · push Not at hdefines
      have hclear : Clear graph location (block, 0) (block, sequence) :=
        (Clear.refl _).accesses hsequence hdefines
      have hsettled := settled_of_definedBefore hreach hblock hclear hdefined hloop
      exact .inr (isComplete_of_settled hfull (settle_stable cap hconverged) hsettled hblock)

/-- The reason comes from the reads that a walk reaches undefined or that are behind a clear loop,
and for the others a definition that is the last one on every walk is certain. -/
theorem uniqueDefinition_certain (hfull : graph.navigationOnly = false)
    (hreach : ∀ block ∈ graph.blocks, Reachable graph block) {cap : Nat}
    (hconverged : (iterate graph cap).2 = true) :
    (reachingDefinitionIncomplete graph cap = true ↔ ∃ block ∈ graph.blocks, ∃ sequence access,
      (graph.accesses block)[sequence]? = some access ∧ access.kind.isDefinition = false ∧
        ¬ (DefinedBefore graph access.location (block, sequence) ∧
          ¬ ClearLoop graph access.location (block, sequence))) ∧
    ∀ block ∈ graph.blocks, ∀ sequence access, (graph.accesses block)[sequence]? = some access →
      ¬ ClearLoop graph access.location (block, sequence) → ∀ source,
        (∀ trace, Walk graph (graph.entry, 0) (block, sequence) trace →
          lastDefinition access.location trace = some source) →
        ∃ found ∈ evidence graph cap block, found.source = source ∧
          found.target = (block, sequence) ∧ found.certainty = .certain := by
  constructor
  · rw [reachingDefinitionIncomplete_iff hfull]
    refine exists_congr fun block => and_congr_right fun hblock => exists_congr fun sequence =>
      exists_congr fun access => and_congr_right fun hget => ?_
    have hflag := isComplete_iff hfull hreach hconverged access.location hblock
      (List.getElem?_eq_some_iff.mp hget).1.le
    rw [← hflag]
    simp [definitionsIncomplete]
  · intro block hblock sequence access hget hloop source hlast
    have hsequence := (List.getElem?_eq_some_iff.mp hget).1.le
    have hholds := (holdsAt_inputOf hfull cap block).stateAt hfull hsequence
    have hcomplete := (isComplete_iff hfull hreach hconverged access.location hblock
      hsequence).mpr ⟨fun trace hwalk => by rw [hlast trace hwalk]; rfl, hloop⟩
    have honly : (stateAt graph block (inputOf (iterate graph cap).1 block) sequence).definitionsOf
        access.location = {source} := by
      apply Finset.eq_singleton_iff_unique_mem.mpr
      constructor
      · obtain ⟨start, hstart⟩ := hreach block hblock
        obtain ⟨trace, hwalk⟩ := hstart.within hsequence
        obtain ⟨found, hfound, hfoundLast⟩ := hholds.covers hcomplete hwalk
        rw [hlast trace hwalk] at hfoundLast
        cases hfoundLast
        exact hfound
      · intro found hfound
        obtain ⟨trace, hwalk, hfoundLast⟩ := (hholds.reaches hfound).last hreach hblock
        rw [hlast trace hwalk] at hfoundLast
        cases hfoundLast
        rfl
    refine ⟨_, (mem_evidence hfull).mpr ⟨sequence, access, hget, Finset.mem_image_of_mem _ ?_⟩,
      rfl, rfl, ?_⟩
    · rw [honly]
      exact Finset.mem_singleton_self _
    · simp [hcomplete, honly]

end Uses

/-! ## Loops with and without a definition -/

theorem countingLoop_reachable : ∀ block ∈ countingLoop.blocks, Reachable countingLoop block := by
  have hentry : Walk countingLoop (2, 0) (2, 0) [] := .stay
  have hloop : Walk countingLoop (2, 0) (1, 0) _ := (hentry.access rfl).jump (by decide)
  have hexit : Walk countingLoop (2, 0) (0, 0) _ :=
    ((hloop.access rfl).access rfl).jump (by decide)
  intro block hblock
  have hcases : block = 0 ∨ block = 1 ∨ block = 2 := by
    simpa [countingLoop, singleLoop, FlowGraph.ofEdges] using hblock
  rcases hcases with rfl | rfl | rfl
  · exact ⟨_, hexit⟩
  · exact ⟨_, hloop⟩
  · exact ⟨_, hentry⟩

theorem uniqueDefinition_certain_countingLoop : ∃ found ∈ evidence countingLoop 64 0,
    found.source = (1, 1) ∧ found.target = (0, 0) ∧ found.certainty = .certain := by
  have hconverged : (iterate countingLoop 64).2 = true := by decide +kernel
  have hholds : HoldsAt countingLoop (inputOf (iterate countingLoop 64).1 0) (0, 0) :=
    holdsAt_inputOf rfl 64 0
  have hcomplete : (inputOf (iterate countingLoop 64).1 0).isComplete "i" = true := by
    decide +kernel
  have honly : (inputOf (iterate countingLoop 64).1 0).definitionsOf "i" = {(1, 1)} := by
    decide +kernel
  refine (uniqueDefinition_certain rfl countingLoop_reachable hconverged).2 0 (by decide) 0 _ rfl
    ?_ (1, 1) fun trace hwalk => ?_
  · exact (settled_of_isComplete rfl hcomplete).no_clearLoop
  · obtain ⟨source, hsource, hlast⟩ := hholds.covers hcomplete hwalk
    rw [honly, Finset.mem_singleton] at hsource
    rw [← hsource]
    exact hlast

/-- A variable that block 2 initializes and a loop at block 1 only reads. -/
def waitingLoop : FlowGraph Nat :=
  singleLoop fun
    | 1 => [{ location := "i", kind := .condition }]
    | 2 => [{ location := "i", kind := .initialization }]
    | _ => []

/-- Every walk to the read passes the only definition, and the read gains the reason. -/
theorem waitingLoop_possible : (∀ block ∈ waitingLoop.blocks, Reachable waitingLoop block) ∧
    (iterate waitingLoop 64).2 = true ∧
    (∀ trace, Walk waitingLoop (waitingLoop.entry, 0) (1, 0) trace →
      lastDefinition "i" trace = some (2, 0)) ∧
    reachingDefinitionIncomplete waitingLoop 64 = true ∧
    ∀ found ∈ evidence waitingLoop 64 1, found.certainty = .possible := by
  refine ⟨?_, by decide +kernel, ?_, by decide +kernel, by decide +kernel⟩
  · have hentry : Walk waitingLoop (2, 0) (2, 0) [] := .stay
    have hloop : Walk waitingLoop (2, 0) (1, 0) _ := (hentry.access rfl).jump (by decide)
    have hexit : Walk waitingLoop (2, 0) (0, 0) _ := (hloop.access rfl).jump (by decide)
    intro block hblock
    have hcases : block = 0 ∨ block = 1 ∨ block = 2 := by
      simpa [waitingLoop, singleLoop, FlowGraph.ofEdges] using hblock
    rcases hcases with rfl | rfl | rfl
    · exact ⟨_, hexit⟩
    · exact ⟨_, hloop⟩
    · exact ⟨_, hentry⟩
  · suffices hpoint : ∀ point trace, Walk waitingLoop (2, 0) point trace → point = (2, 0) ∨
        lastDefinition "i" trace = some (2, 0) from
      fun trace hwalk => (hpoint _ trace hwalk).resolve_left (by decide)
    intro point trace hwalk
    induction hwalk with
    | stay => exact .inl rfl
    | @access block sequence access trace _ haccess ih =>
        right
        rw [lastDefinition_append]
        match block, sequence, haccess with
        | 1, 0, rfl => simpa [Access.Defines, AccessKind.isDefinition] using ih
        | 2, 0, rfl => simp [Access.Defines, AccessKind.isDefinition]
    | @jump previous block trace _ _ ih =>
        right
        refine ih.resolve_left ?_
        rintro hsame
        cases hsame

end CppContextEngine.Analyzer
