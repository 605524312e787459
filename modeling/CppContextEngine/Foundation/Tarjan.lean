import Mathlib.Data.List.Sort
import Mathlib.Data.List.Nodup
import Mathlib.Logic.Relation
import Mathlib.Logic.Function.Basic

/-!
# Tarjan's strongly connected components

The recursive formulation with one global stack: a node opened by `visit` is
pushed, its low link is the least index its subtree can reach on the stack, and
a node whose low link is its own index pops its component.  The recursion is on
fuel; `fuel = nodes.length` always suffices, since every call opens a node.
-/

namespace CppContextEngine.Foundation.Tarjan

variable {α : Type} [LinearOrder α]

/-! ## The algorithm -/

/-- The variables that the nested `visit` shares. -/
structure State (α : Type) where
  index : Nat
  stack : List α
  onStack : α → Bool
  indexes : α → Option Nat
  lows : α → Nat
  result : List (List α)

def initial : State α :=
  ⟨0, [], fun _ => false, fun _ => none, fun _ => 0, []⟩

/-- Open `node`: number it and push it. -/
def enter (node : α) (s : State α) : State α :=
  { s with
    index := s.index + 1
    stack := node :: s.stack
    onStack := Function.update s.onStack node true
    indexes := Function.update s.indexes node (some s.index)
    lows := Function.update s.lows node s.index }

def lowerTo (node : α) (bound : Nat) (s : State α) : State α :=
  { s with lows := Function.update s.lows node (min (s.lows node) bound) }

/-- One round of the loop over the targets of `node`. -/
def scan (visit : α → State α → State α) (node : α) (s : State α) (target : α) :
    State α :=
  if s.indexes target = none then
    let s := visit target s
    lowerTo node (s.lows target) s
  else if s.onStack target then
    lowerTo node ((s.indexes target).getD 0) s
  else s

/-- Pop members until `node`; the popped ones and the rest of the stack. -/
def popComponent (node : α) : List α → List α × List α
  | [] => ([], [])
  | member :: rest =>
      if member = node then ([member], rest)
      else
        let (component, stack) := popComponent node rest
        (member :: component, stack)

/-- Close `node`: a root pops its component, any other node stays. -/
def leave (node : α) (s : State α) : State α :=
  if s.indexes node ≠ some (s.lows node) then s
  else
    let (component, stack) := popComponent node s.stack
    { s with
      stack := stack
      onStack := fun member => s.onStack member && !decide (member ∈ component)
      result := s.result ++ [component.insertionSort (· ≤ ·)] }

def visit (adjacency : α → List α) : Nat → α → State α → State α
  | 0, _, s => s
  | fuel + 1, node, s =>
      leave node ((adjacency node).foldl (scan (visit adjacency fuel) node) (enter node s))

/-- One round of the outer loop. -/
def visitNew (adjacency : α → List α) (fuel : Nat) (s : State α) (node : α) : State α :=
  if s.indexes node = none then visit adjacency fuel node s else s

def components (nodes : List α) (adjacency : α → List α) : List (List α) :=
  ((nodes.insertionSort (· ≤ ·)).foldl (visitNew adjacency nodes.length) initial).result

/-! ## The invariant -/

def Edge (adjacency : α → List α) (source target : α) : Prop :=
  target ∈ adjacency source

def Reach (adjacency : α → List α) : α → α → Prop :=
  Relation.ReflTransGen (Edge adjacency)

namespace State

def Visited (s : State α) (node : α) : Prop := s.indexes node ≠ none

instance (s : State α) (node : α) : Decidable (s.Visited node) :=
  inferInstanceAs (Decidable (_ ≠ _))

def indexOf (s : State α) (node : α) : Nat := (s.indexes node).getD 0

/-- The node belongs to a component that was already emitted. -/
def Closed (s : State α) (node : α) : Prop := ∃ component ∈ s.result, node ∈ component

end State

variable (adjacency : α → List α)

/-- Every successor of a member lies in the component or in an earlier one. -/
def SuccessorsFirst (result : List (List α)) : Prop :=
  ∀ before component after, result = before ++ component :: after →
    ∀ x ∈ component, ∀ y ∈ adjacency x, ∃ c ∈ before ++ [component], y ∈ c

/-- `component` is the strongly connected component of each of its members. -/
def IsComponent (component : List α) : Prop :=
  component ≠ [] ∧ component.Pairwise (· < ·) ∧
    ∀ x ∈ component, ∀ y, y ∈ component ↔ Reach adjacency x y ∧ Reach adjacency y x

/-- What holds between calls while the nodes of `gray` are open. -/
structure Invariant (nodes gray : List α) (s : State α) : Prop where
  inside : ∀ v, s.Visited v → v ∈ nodes
  bounded : ∀ v, s.Visited v → s.indexOf v < s.index
  descending : s.stack.Pairwise fun a b => s.indexOf b < s.indexOf a
  stackVisited : ∀ v ∈ s.stack, s.Visited v
  onStack : ∀ v, s.onStack v = true ↔ v ∈ s.stack
  closed : ∀ v, s.Closed v ↔ s.Visited v ∧ v ∉ s.stack
  grayStack : ∀ g ∈ gray, g ∈ s.stack
  blackSuccessors : ∀ v, s.Visited v → v ∉ gray → ∀ w ∈ adjacency v, s.Visited w
  upward : ∀ x ∈ s.stack, ∀ y ∈ s.stack, s.indexOf x ≤ s.indexOf y →
    Reach adjacency x y
  rooted : ∀ y ∈ s.stack, ∃ g ∈ gray, s.indexOf g ≤ s.indexOf y ∧
    Reach adjacency y g
  sound : ∀ component ∈ s.result, IsComponent adjacency component
  disjoint : s.result.Pairwise List.Disjoint
  ordered : SuccessorsFirst adjacency s.result

/-- What a call leaves alone. -/
structure Frame (s s' : State α) : Prop where
  index : s.index ≤ s'.index
  indexes : ∀ v, s.Visited v → s'.indexes v = s.indexes v
  lows : ∀ v, s.Visited v → s'.lows v = s.lows v
  fresh : ∀ v, ¬ s.Visited v → s'.Visited v → s.index ≤ s'.indexOf v
  stack : ∃ pushed, s'.stack = pushed ++ s.stack
  result : ∃ emitted, s'.result = s.result ++ emitted

/-- What a call of `visit` on an unvisited node returns. -/
structure VisitSpec (nodes gray : List α) (node : α) (s s' : State α) : Prop where
  invariant : Invariant adjacency nodes gray s'
  frame : Frame s s'
  visited : s'.Visited node
  lowLe : s'.lows node ≤ s'.indexOf node
  lowReach : node ∈ s'.stack →
    ∃ w ∈ s'.stack, s'.indexOf w = s'.lows node ∧ Reach adjacency node w
  lowClosed : node ∉ s'.stack → s'.lows node = s'.indexOf node
  lowEdge : ∀ x ∈ s'.stack, x ∉ s.stack → ∀ y ∈ adjacency x, y ∈ s.stack →
    s'.lows node ≤ s'.indexOf y

/-- What holds in the loop of `node`, entered from `s`, after `done`. -/
structure LoopInvariant (nodes gray : List α) (node : α) (s : State α)
    (done : List α) (s' : State α) : Prop where
  invariant : Invariant adjacency nodes (node :: gray) s'
  frame : Frame s s'
  opened : s'.indexes node = some s.index
  pushed : ∃ above, s'.stack = above ++ node :: s.stack
  lowLe : s'.lows node ≤ s.index
  lowReach : ∃ w ∈ s'.stack, s'.indexOf w = s'.lows node ∧ Reach adjacency node w
  doneVisited : ∀ w ∈ done, s'.Visited w
  lowEdge : ∀ x ∈ s'.stack, x ∉ s.stack → ∀ y ∈ adjacency x, y ∈ s.stack →
    (x = node → y ∈ done) → s'.lows node ≤ s'.indexOf y

/-! ## Small facts about the state -/

omit [LinearOrder α] in
theorem State.indexOf_of_indexes {s : State α} {v : α} {i : Nat}
    (h : s.indexes v = some i) : s.indexOf v = i := by
  simp [State.indexOf, h]

@[simp] theorem enter_index (node : α) (s : State α) :
    (enter node s).index = s.index + 1 := rfl

@[simp] theorem enter_stack (node : α) (s : State α) :
    (enter node s).stack = node :: s.stack := rfl

@[simp] theorem enter_result (node : α) (s : State α) :
    (enter node s).result = s.result := rfl

@[simp] theorem enter_closed (node : α) (s : State α) (v : α) :
    (enter node s).Closed v ↔ s.Closed v := Iff.rfl

theorem enter_indexes_of_ne {node v : α} (s : State α) (h : v ≠ node) :
    (enter node s).indexes v = s.indexes v := by
  simp [enter, Function.update_of_ne h]

@[simp] theorem enter_indexes_self (node : α) (s : State α) :
    (enter node s).indexes node = some s.index := by
  simp [enter]

theorem enter_indexOf_of_ne {node v : α} (s : State α) (h : v ≠ node) :
    (enter node s).indexOf v = s.indexOf v := by
  simp [State.indexOf, enter_indexes_of_ne s h]

@[simp] theorem enter_indexOf_self (node : α) (s : State α) :
    (enter node s).indexOf node = s.index := by
  simp [State.indexOf]

theorem enter_visited_iff {node : α} (s : State α) (v : α) :
    (enter node s).Visited v ↔ v = node ∨ s.Visited v := by
  by_cases h : v = node
  · subst h
    simp [State.Visited]
  · simp [State.Visited, enter_indexes_of_ne s h, h]

theorem Invariant.notMem_stack_of_unvisited {nodes gray : List α} {s : State α}
    (h : Invariant adjacency nodes gray s) {v : α} (hv : ¬ s.Visited v) :
    v ∉ s.stack :=
  fun hstack => hv (h.stackVisited v hstack)

theorem Invariant.notClosed_of_unvisited {nodes gray : List α} {s : State α}
    (h : Invariant adjacency nodes gray s) {v : α} (hv : ¬ s.Visited v) :
    ¬ s.Closed v :=
  fun hclosed => hv ((h.closed v).mp hclosed).1

theorem Invariant.indexOf_injOn_stack {nodes gray : List α} {s : State α}
    (h : Invariant adjacency nodes gray s) : s.stack.Nodup :=
  h.descending.imp fun {a b} hlt heq => by
    subst heq
    exact lt_irrefl _ hlt

namespace Frame

omit [LinearOrder α]

theorem refl (s : State α) : Frame s s :=
  ⟨le_rfl, fun _ _ => rfl, fun _ _ => rfl, fun _ h h' => absurd h' h,
    ⟨[], rfl⟩, ⟨[], by simp⟩⟩

theorem visited {s s' : State α} (h : Frame s s') {v : α} (hv : s.Visited v) :
    s'.Visited v := by
  simpa [State.Visited, h.indexes v hv] using hv

theorem indexOf {s s' : State α} (h : Frame s s') {v : α} (hv : s.Visited v) :
    s'.indexOf v = s.indexOf v := by
  simp [State.indexOf, h.indexes v hv]

theorem mem_stack {s s' : State α} (h : Frame s s') {v : α} (hv : v ∈ s.stack) :
    v ∈ s'.stack := by
  obtain ⟨pushed, hpushed⟩ := h.stack
  rw [hpushed]
  exact List.mem_append_right _ hv

theorem closed {s s' : State α} (h : Frame s s') {v : α} (hv : s.Closed v) :
    s'.Closed v := by
  obtain ⟨component, hmem, hcomponent⟩ := hv
  obtain ⟨emitted, hemitted⟩ := h.result
  exact ⟨component, by rw [hemitted]; exact List.mem_append_left _ hmem, hcomponent⟩

theorem trans {s s' s'' : State α} (h : Frame s s') (h' : Frame s' s'') :
    Frame s s'' where
  index := h.index.trans h'.index
  indexes v hv := (h'.indexes v (h.visited hv)).trans (h.indexes v hv)
  lows v hv := (h'.lows v (h.visited hv)).trans (h.lows v hv)
  fresh v hv hv'' := by
    by_cases hv' : s'.Visited v
    · rw [h'.indexOf hv']
      exact h.fresh v hv hv'
    · exact h.index.trans (h'.fresh v hv' hv'')
  stack := by
    obtain ⟨pushed, hpushed⟩ := h.stack
    obtain ⟨pushed', hpushed'⟩ := h'.stack
    exact ⟨pushed' ++ pushed, by rw [hpushed', hpushed, List.append_assoc]⟩
  result := by
    obtain ⟨emitted, hemitted⟩ := h.result
    obtain ⟨emitted', hemitted'⟩ := h'.result
    exact ⟨emitted ++ emitted', by rw [hemitted', hemitted, List.append_assoc]⟩

end Frame

/-- Low links are not part of the invariant. -/
theorem Invariant.lowerTo {nodes gray : List α} {s : State α}
    (h : Invariant adjacency nodes gray s) (node : α) (bound : Nat) :
    Invariant adjacency nodes gray (lowerTo node bound s) :=
  { h with }

@[simp] theorem lowerTo_lows_self (node : α) (bound : Nat) (s : State α) :
    (lowerTo node bound s).lows node = min (s.lows node) bound := by
  simp [lowerTo]

theorem lowerTo_lows_of_ne {node v : α} (bound : Nat) (s : State α) (h : v ≠ node) :
    (lowerTo node bound s).lows v = s.lows v := by
  simp [lowerTo, Function.update_of_ne h]

/-! ## Entering a node -/

section Enter

variable {adjacency} {nodes gray : List α} {node : α} {s : State α}

theorem enter_frame (hnode : ¬ s.Visited node) : Frame s (enter node s) where
  index := by simp
  indexes v hv := enter_indexes_of_ne s (by rintro rfl; exact hnode hv)
  lows v hv := by
    have hne : v ≠ node := by rintro rfl; exact hnode hv
    simp [enter, Function.update_of_ne hne]
  fresh v hv hv' := by
    obtain rfl | hold := (enter_visited_iff s v).mp hv'
    · simp
    · exact absurd hold hv
  stack := ⟨[node], rfl⟩
  result := ⟨[], by simp⟩

theorem enter_invariant (h : Invariant adjacency nodes gray s)
    (hmem : node ∈ nodes) (hnode : ¬ s.Visited node)
    (hgray : ∀ g ∈ gray, Reach adjacency g node) :
    Invariant adjacency nodes (node :: gray) (enter node s) := by
  have hstack : node ∉ s.stack := h.notMem_stack_of_unvisited adjacency hnode
  have hne : ∀ v ∈ s.stack, v ≠ node := fun v hv heq => hstack (heq ▸ hv)
  constructor
  · intro v hv
    obtain rfl | hold := (enter_visited_iff s v).mp hv
    · exact hmem
    · exact h.inside v hold
  · intro v hv
    by_cases hv' : v = node
    · subst hv'
      simp
    · obtain rfl | hold := (enter_visited_iff s v).mp hv
      · exact absurd rfl hv'
      · rw [enter_indexOf_of_ne s hv', enter_index]
        have := h.bounded v hold
        omega
  · rw [enter_stack, List.pairwise_cons]
    constructor
    · intro v hv
      rw [enter_indexOf_self, enter_indexOf_of_ne s (hne v hv)]
      exact h.bounded v (h.stackVisited v hv)
    · refine h.descending.imp_of_mem ?_
      intro a b ha hb hlt
      rwa [enter_indexOf_of_ne s (hne a ha), enter_indexOf_of_ne s (hne b hb)]
  · intro v hv
    rw [enter_stack, List.mem_cons] at hv
    rw [enter_visited_iff]
    exact hv.imp_right (h.stackVisited v)
  · intro v
    rw [enter_stack, List.mem_cons]
    by_cases hv : v = node
    · subst hv
      simp [enter]
    · simp [enter, hv, h.onStack v]
  · intro v
    rw [enter_closed, h.closed, enter_stack, List.mem_cons, enter_visited_iff]
    by_cases hv : v = node
    · subst hv
      simp [hnode]
    · simp [hv]
  · intro g hg
    rw [enter_stack, List.mem_cons]
    rw [List.mem_cons] at hg
    exact hg.imp_right (h.grayStack g)
  · intro v hv hblack w hw
    rw [List.mem_cons, not_or] at hblack
    have hold : s.Visited v := ((enter_visited_iff s v).mp hv).resolve_left hblack.1
    exact (enter_visited_iff s w).mpr (.inr (h.blackSuccessors v hold hblack.2 w hw))
  · intro x hx y hy hle
    rw [enter_stack, List.mem_cons] at hx hy
    rcases hx with rfl | hx <;> rcases hy with rfl | hy
    · exact Relation.ReflTransGen.refl
    · rw [enter_indexOf_self, enter_indexOf_of_ne s (hne y hy)] at hle
      have := h.bounded y (h.stackVisited y hy)
      omega
    · obtain ⟨g, hg, -, hreach⟩ := h.rooted x hx
      exact hreach.trans (hgray g hg)
    · rw [enter_indexOf_of_ne s (hne x hx), enter_indexOf_of_ne s (hne y hy)] at hle
      exact h.upward x hx y hy hle
  · intro y hy
    rw [enter_stack, List.mem_cons] at hy
    rcases hy with rfl | hy
    · exact ⟨y, List.mem_cons_self, le_rfl, Relation.ReflTransGen.refl⟩
    · obtain ⟨g, hg, hle, hreach⟩ := h.rooted y hy
      refine ⟨g, List.mem_cons_of_mem _ hg, ?_, hreach⟩
      rwa [enter_indexOf_of_ne s (hne g (h.grayStack g hg)),
        enter_indexOf_of_ne s (hne y hy)]
  · exact h.sound
  · exact h.disjoint
  · exact h.ordered

theorem enter_loopInvariant (h : Invariant adjacency nodes gray s)
    (hmem : node ∈ nodes) (hnode : ¬ s.Visited node)
    (hgray : ∀ g ∈ gray, Reach adjacency g node) :
    LoopInvariant adjacency nodes gray node s [] (enter node s) where
  invariant := enter_invariant h hmem hnode hgray
  frame := enter_frame hnode
  opened := enter_indexes_self node s
  pushed := ⟨[], rfl⟩
  lowLe := by simp [enter]
  lowReach := ⟨node, by simp, by rw [enter_indexOf_self]; simp [enter],
    Relation.ReflTransGen.refl⟩
  doneVisited := by simp
  lowEdge x hx hold y hy _ himp := by
    rw [enter_stack, List.mem_cons] at hx
    have hx' : x = node := hx.resolve_right hold
    exact absurd (himp hx') (by simp)

end Enter

/-! ## The loop over the targets -/

section Scan

variable {adjacency} {nodes gray done : List α} {node target : α} {s s' : State α}

theorem LoopInvariant.visited (h : LoopInvariant adjacency nodes gray node s done s') :
    s'.Visited node := by
  simp [State.Visited, h.opened]

theorem LoopInvariant.indexOf (h : LoopInvariant adjacency nodes gray node s done s') :
    s'.indexOf node = s.index :=
  State.indexOf_of_indexes h.opened

theorem LoopInvariant.index_lt (h : LoopInvariant adjacency nodes gray node s done s') :
    s.index < s'.index := by
  have := h.invariant.bounded node h.visited
  rwa [h.indexOf] at this

/-- A step that only lowers the low link of the open node keeps the frame. -/
theorem Frame.lowerTo (h : Frame s s') (hnode : ¬ s.Visited node) (bound : Nat) :
    Frame s (lowerTo node bound s') :=
  { h with
    lows := by
      intro v hv
      have hne : v ≠ node := by rintro rfl; exact hnode hv
      rw [lowerTo_lows_of_ne bound s' hne, h.lows v hv] }

theorem scan_unvisited (h : LoopInvariant adjacency nodes gray node s done s')
    (hnode : ¬ s.Visited node) (hedge : target ∈ adjacency node)
    (htarget : ¬ s'.Visited target) {s₁ : State α}
    (hspec : VisitSpec adjacency nodes (node :: gray) target s' s₁) :
    LoopInvariant adjacency nodes gray node s (done ++ [target])
      (lowerTo node (s₁.lows target) s₁) := by
  have hlow : s₁.lows node = s'.lows node := hspec.frame.lows node h.visited
  have hreach : Reach adjacency node target := Relation.ReflTransGen.single hedge
  constructor
  · exact hspec.invariant.lowerTo adjacency node _
  · exact (h.frame.trans hspec.frame).lowerTo hnode _
  · exact (hspec.frame.indexes node h.visited).trans h.opened
  · obtain ⟨pushed, hpushed⟩ := hspec.frame.stack
    obtain ⟨above, habove⟩ := h.pushed
    exact ⟨pushed ++ above, by
      rw [List.append_assoc, ← habove]; exact hpushed⟩
  · rw [lowerTo_lows_self, hlow]
    exact (min_le_left _ _).trans h.lowLe
  · rw [lowerTo_lows_self, hlow]
    rcases le_total (s'.lows node) (s₁.lows target) with hle | hle
    · rw [min_eq_left hle]
      obtain ⟨w, hw, hindex, hnodew⟩ := h.lowReach
      refine ⟨w, hspec.frame.mem_stack hw, ?_, hnodew⟩
      exact (hspec.frame.indexOf (h.invariant.stackVisited w hw)).trans hindex
    · rw [min_eq_right hle]
      by_cases hstack : target ∈ s₁.stack
      · obtain ⟨w, hw, hindex, htargetw⟩ := hspec.lowReach hstack
        exact ⟨w, hw, hindex, hreach.trans htargetw⟩
      · -- a closed target has its own, later index as low link
        have hlater := hspec.frame.fresh target htarget hspec.visited
        rw [← hspec.lowClosed hstack] at hlater
        have hlt := h.index_lt
        have hle' := h.lowLe
        omega
  · intro w hw
    rw [List.mem_append, List.mem_singleton] at hw
    rcases hw with hw | rfl
    · exact hspec.frame.visited (h.doneVisited w hw)
    · exact hspec.visited
  · intro x hx hfresh y hy hold himp
    rw [lowerTo_lows_self, hlow]
    have hy' : y ∈ s'.stack := h.frame.mem_stack hold
    have hindex : s₁.indexOf y = s'.indexOf y :=
      hspec.frame.indexOf (h.invariant.stackVisited y hy')
    by_cases hx' : x ∈ s'.stack
    · refine (min_le_left _ _).trans ?_
      have hbound := h.lowEdge x hx' hfresh y hy hold (fun heq => by
        have hdone := himp heq
        rw [List.mem_append, List.mem_singleton] at hdone
        refine hdone.resolve_right ?_
        rintro rfl
        exact htarget (h.invariant.stackVisited y hy'))
      rw [← hindex] at hbound
      exact hbound
    · exact (min_le_right _ _).trans (hspec.lowEdge x hx hx' y hy hy')

theorem scan_onStack (h : LoopInvariant adjacency nodes gray node s done s')
    (hnode : ¬ s.Visited node) (hedge : target ∈ adjacency node)
    (htarget : target ∈ s'.stack) :
    LoopInvariant adjacency nodes gray node s (done ++ [target])
      (lowerTo node (s'.indexOf target) s') := by
  constructor
  · exact h.invariant.lowerTo adjacency node _
  · exact h.frame.lowerTo hnode _
  · exact h.opened
  · exact h.pushed
  · rw [lowerTo_lows_self]
    exact (min_le_left _ _).trans h.lowLe
  · rw [lowerTo_lows_self]
    rcases le_total (s'.lows node) (s'.indexOf target) with hle | hle
    · rw [min_eq_left hle]
      exact h.lowReach
    · rw [min_eq_right hle]
      exact ⟨target, htarget, rfl, Relation.ReflTransGen.single hedge⟩
  · intro w hw
    rw [List.mem_append, List.mem_singleton] at hw
    rcases hw with hw | rfl
    · exact h.doneVisited w hw
    · exact h.invariant.stackVisited w htarget
  · intro x hx hfresh y hy hold himp
    rw [lowerTo_lows_self]
    by_cases htarget' : x = node → y ∈ done
    · exact (min_le_left _ _).trans (h.lowEdge x hx hfresh y hy hold htarget')
    · rw [Classical.not_imp] at htarget'
      have hdone := himp htarget'.1
      rw [List.mem_append, List.mem_singleton] at hdone
      rw [hdone.resolve_left htarget'.2]
      exact min_le_right _ _

theorem scan_closed (h : LoopInvariant adjacency nodes gray node s done s')
    (hvisited : s'.Visited target) (htarget : target ∉ s'.stack) :
    LoopInvariant adjacency nodes gray node s (done ++ [target]) s' :=
  { h with
    doneVisited := by
      intro w hw
      rw [List.mem_append, List.mem_singleton] at hw
      rcases hw with hw | rfl
      · exact h.doneVisited w hw
      · exact hvisited
    lowEdge := by
      intro x hx hfresh y hy hold himp
      refine h.lowEdge x hx hfresh y hy hold (fun heq => ?_)
      have hdone := himp heq
      rw [List.mem_append, List.mem_singleton] at hdone
      refine hdone.resolve_right ?_
      rintro rfl
      exact htarget (h.frame.mem_stack hold) }

end Scan

/-! ## Leaving a node -/

theorem popComponent_append {node : α} {above rest : List α} (h : node ∉ above) :
    popComponent node (above ++ node :: rest) = (above ++ [node], rest) := by
  induction above with
  | nil => simp [popComponent]
  | cons member above ih =>
      rw [List.mem_cons, not_or] at h
      simp [popComponent, Ne.symm h.1, ih h.2]

section Leave

variable {adjacency} {nodes gray : List α} {node : α} {s s' : State α}

/-- Nodes of emitted components reach only such nodes. -/
theorem Invariant.closed_of_reach (h : Invariant adjacency nodes gray s) {x y : α}
    (hx : s.Closed x) (hreach : Reach adjacency x y) : s.Closed y := by
  induction hreach with
  | refl => exact hx
  | @tail b c _ hedge ih =>
      obtain ⟨component, hmem, hb⟩ := ih
      obtain ⟨before, after, hsplit⟩ := List.append_of_mem hmem
      obtain ⟨other, hother, hc⟩ := h.ordered before component after hsplit b hb c hedge
      refine ⟨other, ?_, hc⟩
      rw [hsplit]
      rw [List.mem_append, List.mem_singleton] at hother
      rcases hother with hother | rfl
      · exact List.mem_append_left _ hother
      · exact List.mem_append_right _ List.mem_cons_self

theorem Invariant.notClosed_of_mem_stack (h : Invariant adjacency nodes gray s) {x : α}
    (hx : x ∈ s.stack) : ¬ s.Closed x :=
  fun hclosed => ((h.closed x).mp hclosed).2 hx

variable (adjacency) in
/-- What the loop has established when all targets of `node` are done. -/
structure Finished (nodes gray : List α) (node : α) (s s' : State α)
    (above : List α) : Prop where
  loop : LoopInvariant adjacency nodes gray node s (adjacency node) s'
  before : Invariant adjacency nodes gray s
  unvisited : ¬ s.Visited node
  stack : s'.stack = above ++ node :: s.stack

variable {above : List α}

namespace Finished

theorem nodup (h : Finished adjacency nodes gray node s s' above) :
    (above ++ node :: s.stack).Nodup :=
  h.stack ▸ h.loop.invariant.indexOf_injOn_stack

theorem node_notMem_above (h : Finished adjacency nodes gray node s s' above) :
    node ∉ above := by
  have hnodup := List.nodup_append.mp h.nodup
  exact fun hmem => hnodup.2.2 node hmem node List.mem_cons_self rfl

theorem node_mem (h : Finished adjacency nodes gray node s s' above) :
    node ∈ s'.stack := by
  rw [h.stack]
  exact List.mem_append_right _ List.mem_cons_self

theorem gray_mem (h : Finished adjacency nodes gray node s s' above) {g : α}
    (hg : g ∈ gray) : g ∈ s.stack :=
  h.before.grayStack g hg

theorem mem_stack_iff (h : Finished adjacency nodes gray node s s' above)
    (x : α) : x ∈ s'.stack ↔ x ∈ above ++ [node] ∨ x ∈ s.stack := by
  rw [h.stack]
  simp only [List.mem_append, List.mem_cons, List.not_mem_nil, or_false]
  tauto

theorem above_notMem (h : Finished adjacency nodes gray node s s' above) {x : α}
    (hx : x ∈ above ++ [node]) : x ∉ s.stack := by
  have hnodup := h.nodup
  rw [List.append_cons] at hnodup
  exact fun hmem => (List.nodup_append.mp hnodup).2.2 x hx x hmem rfl

theorem index_le (h : Finished adjacency nodes gray node s s' above) {x : α}
    (hx : x ∈ above ++ [node]) : s.index ≤ s'.indexOf x := by
  have hdescending := h.loop.invariant.descending
  rw [h.stack] at hdescending
  rw [List.mem_append, List.mem_singleton] at hx
  rcases hx with hx | rfl
  · have hlt := (List.pairwise_append.mp hdescending).2.2 x hx node List.mem_cons_self
    rw [h.loop.indexOf] at hlt
    exact hlt.le
  · exact h.loop.indexOf.ge

theorem index_lt (h : Finished adjacency nodes gray node s s' above) {x : α}
    (hx : x ∈ s.stack) : s'.indexOf x < s.index := by
  rw [h.loop.frame.indexOf (h.before.stackVisited x hx)]
  exact h.before.bounded x (h.before.stackVisited x hx)

theorem successorVisited (h : Finished adjacency nodes gray node s s' above)
    {x y : α} (hx : s'.Visited x) (hgray : x ∉ gray) (hy : y ∈ adjacency x) :
    s'.Visited y := by
  by_cases hnode : x = node
  · subst hnode
    exact h.loop.doneVisited y hy
  · refine h.loop.invariant.blackSuccessors x hx ?_ y hy
    simp [hnode, hgray]

theorem reach_of_member (h : Finished adjacency nodes gray node s s' above)
    {x : α} (hx : x ∈ above ++ [node]) : Reach adjacency node x := by
  refine h.loop.invariant.upward node h.node_mem x ((h.mem_stack_iff x).mpr (.inl hx)) ?_
  rw [h.loop.indexOf]
  exact h.index_le hx

theorem member_reaches (h : Finished adjacency nodes gray node s s' above)
    {x : α} (hx : x ∈ above ++ [node]) : Reach adjacency x node := by
  obtain ⟨g, hg, -, hreach⟩ :=
    h.loop.invariant.rooted x ((h.mem_stack_iff x).mpr (.inl hx))
  rcases List.mem_cons.mp hg with rfl | hg
  · exact hreach
  · refine hreach.trans ?_
    have hold := h.gray_mem hg
    refine h.loop.invariant.upward g (h.loop.frame.mem_stack hold) node h.node_mem ?_
    rw [h.loop.indexOf]
    exact (h.index_lt hold).le

/-- With its own index as low link, a root leaves its members only to closed nodes. -/
theorem closed_or_member (h : Finished adjacency nodes gray node s s' above)
    (hroot : s'.lows node = s.index) {x y : α} (hx : x ∈ above ++ [node])
    (hreach : Reach adjacency x y) : y ∈ above ++ [node] ∨ s'.Closed y := by
  induction hreach with
  | refl => exact .inl hx
  | @tail b c _ hedge ih =>
      rcases ih with hb | hb
      · have hbstack : b ∈ s'.stack := (h.mem_stack_iff b).mpr (.inl hb)
        have hgray : b ∉ gray := fun hg => h.above_notMem hb (h.gray_mem hg)
        have hc : s'.Visited c :=
          h.successorVisited (h.loop.invariant.stackVisited b hbstack) hgray hedge
        by_cases hstack : c ∈ s'.stack
        · refine ((h.mem_stack_iff c).mp hstack).imp_right fun hold => ?_
          have hbound := h.loop.lowEdge b hbstack (h.above_notMem hb) c hedge hold
            (fun heq => heq ▸ hedge)
          have hlt := h.index_lt hold
          omega
        · exact .inr ((h.loop.invariant.closed c).mpr ⟨hc, hstack⟩)
      · exact .inr (h.loop.invariant.closed_of_reach hb (.single hedge))

end Finished

theorem isComponent_of_root
    (h : Finished adjacency nodes gray node s s' above)
    (hroot : s'.lows node = s.index) :
    IsComponent adjacency ((above ++ [node]).insertionSort (· ≤ ·)) := by
  have hperm := List.perm_insertionSort (· ≤ ·) (above ++ [node])
  have hnodup : (above ++ [node]).Nodup := by
    have := h.nodup
    rw [List.append_cons] at this
    exact (List.nodup_append.mp this).1
  refine ⟨?_, ?_, ?_⟩
  · intro hnil
    rw [hnil, List.nil_perm] at hperm
    simp at hperm
  · have hsorted := List.pairwise_insertionSort (· ≤ ·) (above ++ [node])
    exact (hsorted.and (hperm.nodup_iff.mpr hnodup)).imp fun h => lt_of_le_of_ne h.1 h.2
  · intro x hx y
    rw [hperm.mem_iff] at hx ⊢
    constructor
    · intro hy
      exact ⟨(h.member_reaches hx).trans (h.reach_of_member hy),
        (h.member_reaches hy).trans (h.reach_of_member hx)⟩
    · rintro ⟨hxy, hyx⟩
      refine (h.closed_or_member hroot hx hxy).resolve_right fun hclosed => ?_
      exact h.loop.invariant.notClosed_of_mem_stack ((h.mem_stack_iff x).mpr (.inl hx))
        (h.loop.invariant.closed_of_reach hclosed hyx)

theorem leave_root (h : Finished adjacency nodes gray node s s' above)
    (hroot : s'.lows node = s.index) :
    leave node s' =
      { s' with
        stack := s.stack
        onStack := fun member => s'.onStack member && !decide (member ∈ above ++ [node])
        result := s'.result ++ [(above ++ [node]).insertionSort (· ≤ ·)] } := by
  have hlow : s'.indexes node = some (s'.lows node) := by rw [h.loop.opened, hroot]
  simp only [leave, hlow, ne_eq, not_true_eq_false, ↓reduceIte, h.stack,
    popComponent_append h.node_notMem_above]

theorem leave_other (h : Finished adjacency nodes gray node s s' above)
    (hother : s'.lows node ≠ s.index) : leave node s' = s' := by
  have hlow : s'.indexes node ≠ some (s'.lows node) := by
    rw [h.loop.opened]
    simpa using hother.symm
  simp [leave, hlow]

theorem rootSpec (h : Finished adjacency nodes gray node s s' above)
    (hroot : s'.lows node = s.index) :
    VisitSpec adjacency nodes gray node s (leave node s') := by
  have hcomponent := isComponent_of_root h hroot
  have hinv := h.loop.invariant
  have hmem (x : α) : x ∈ (above ++ [node]).insertionSort (· ≤ ·) ↔ x ∈ above ++ [node] :=
    List.mem_insertionSort _
  have hold {x : α} (hx : x ∈ s.stack) : x ∈ s'.stack := h.loop.frame.mem_stack hx
  rw [leave_root h hroot]
  constructor
  · constructor
    · exact hinv.inside
    · exact hinv.bounded
    · have hdescending := hinv.descending
      rw [h.stack] at hdescending
      exact ((List.pairwise_append.mp hdescending).2.1).of_cons
    · exact fun v hv => hinv.stackVisited v (hold hv)
    · intro v
      have hsplit := h.mem_stack_iff v
      have hfresh : v ∈ above ++ [node] → v ∉ s.stack := h.above_notMem
      have hon := hinv.onStack v
      simp only [Bool.and_eq_true, Bool.not_eq_true', decide_eq_false_iff_not]
      tauto
    · intro v
      have hsplit := h.mem_stack_iff v
      have hfresh : v ∈ above ++ [node] → v ∉ s.stack := h.above_notMem
      have hstackVisited := hinv.stackVisited v
      have hclosed := hinv.closed v
      have hiff : State.Closed { s' with
          stack := s.stack
          onStack := fun member => s'.onStack member && !decide (member ∈ above ++ [node])
          result := s'.result ++ [(above ++ [node]).insertionSort (· ≤ ·)] } v ↔
          s'.Closed v ∨ v ∈ above ++ [node] := by
        simp only [State.Closed, List.mem_append (s := s'.result), List.mem_singleton]
        constructor
        · rintro ⟨component, hc | rfl, hv⟩
          · exact .inl ⟨component, hc, hv⟩
          · exact .inr ((hmem v).mp hv)
        · rintro (⟨component, hc, hv⟩ | hv)
          · exact ⟨component, .inl hc, hv⟩
          · exact ⟨_, .inr rfl, (hmem v).mpr hv⟩
      rw [hiff, hclosed]
      change _ ↔ s'.Visited v ∧ v ∉ s.stack
      tauto
    · exact fun g hg => h.gray_mem hg
    · exact fun v hv hgray w hw => h.successorVisited hv hgray hw
    · exact fun x hx y hy hle => hinv.upward x (hold hx) y (hold hy) hle
    · intro y hy
      obtain ⟨g, hg, hle, hreach⟩ := hinv.rooted y (hold hy)
      refine ⟨g, (List.mem_cons.mp hg).resolve_left ?_, hle, hreach⟩
      rintro rfl
      rw [h.loop.indexOf] at hle
      have := h.index_lt hy
      omega
    · intro component hc
      rcases List.mem_append.mp hc with hc | hc
      · exact hinv.sound component hc
      · rw [List.mem_singleton.mp hc]
        exact hcomponent
    · refine List.pairwise_append.mpr ⟨hinv.disjoint, List.pairwise_singleton _ _, ?_⟩
      intro component hc other hother x hx hx'
      rw [List.mem_singleton.mp hother, hmem] at hx'
      exact hinv.notClosed_of_mem_stack ((h.mem_stack_iff x).mpr (.inl hx')) ⟨component, hc, hx⟩
    · intro before component after hsplit x hx y hy
      rcases List.eq_nil_or_concat after with rfl | ⟨after', last, rfl⟩
      · have hlast := List.append_inj' hsplit rfl
        rw [List.cons.injEq] at hlast
        obtain ⟨rfl, rfl, -⟩ := hlast
        rw [hmem] at hx
        rcases h.closed_or_member hroot hx (.single hy) with hyc | ⟨c, hc, hyc⟩
        · exact ⟨_, List.mem_append_right _ (List.mem_singleton_self _), (hmem y).mpr hyc⟩
        · exact ⟨c, List.mem_append_left _ hc, hyc⟩
      · rw [List.concat_eq_append, ← List.cons_append, ← List.append_assoc] at hsplit
        exact hinv.ordered before component after' (List.append_inj' hsplit rfl).1 x hx y hy
  · exact
      { h.loop.frame with
        stack := ⟨[], rfl⟩
        result := by
          obtain ⟨emitted, hemitted⟩ := h.loop.frame.result
          exact ⟨emitted ++ [(above ++ [node]).insertionSort (· ≤ ·)], by
            rw [hemitted, List.append_assoc]⟩ }
  · exact h.loop.visited
  · change s'.lows node ≤ s'.indexOf node
    rw [hroot, h.loop.indexOf]
  · intro hstack
    exact absurd hstack (h.before.notMem_stack_of_unvisited adjacency h.unvisited)
  · intro _
    change s'.lows node = s'.indexOf node
    rw [hroot, h.loop.indexOf]
  · intro x hx hfresh
    exact absurd hx hfresh

theorem otherSpec (h : Finished adjacency nodes gray node s s' above)
    (hother : s'.lows node ≠ s.index) :
    VisitSpec adjacency nodes gray node s (leave node s') := by
  have hinv := h.loop.invariant
  obtain ⟨w, hw, hindex, hreach⟩ := h.loop.lowReach
  have hlt : s'.lows node < s.index := lt_of_le_of_ne h.loop.lowLe hother
  rw [leave_other h hother]
  constructor
  · refine { hinv with grayStack := ?_, blackSuccessors := ?_, rooted := ?_ }
    · exact fun g hg => hinv.grayStack g (List.mem_cons_of_mem _ hg)
    · exact fun v hv hgray w hw => h.successorVisited hv hgray hw
    · intro y hy
      obtain ⟨g, hg, hle, hyg⟩ := hinv.rooted y hy
      rcases List.mem_cons.mp hg with rfl | hg
      · -- the low link leads below `node`, whose root is an older open node
        obtain ⟨g', hg', hle', hwg'⟩ := hinv.rooted w hw
        rw [h.loop.indexOf] at hle
        refine ⟨g', (List.mem_cons.mp hg').resolve_left ?_, by omega,
          (hyg.trans hreach).trans hwg'⟩
        rintro rfl
        rw [h.loop.indexOf] at hle'
        omega
      · exact ⟨g, hg, hle, hyg⟩
  · exact h.loop.frame
  · exact h.loop.visited
  · rw [h.loop.indexOf]
    exact hlt.le
  · exact fun _ => ⟨w, hw, hindex, hreach⟩
  · exact fun hstack => absurd h.node_mem hstack
  · exact fun x hx hfresh y hy hold =>
      h.loop.lowEdge x hx hfresh y hy hold fun heq => heq ▸ hy

end Leave

/-! ## Runs -/

section Run

variable {adjacency} {nodes : List α}

/-- The measure: how many entries of `nodes` are still unvisited. -/
def unvisited (nodes : List α) (s : State α) : Nat :=
  nodes.countP fun v => !decide (s.Visited v)

omit [LinearOrder α] in
theorem unvisited_le {s s' : State α} (h : ∀ v, s.Visited v → s'.Visited v) :
    unvisited nodes s' ≤ unvisited nodes s := by
  refine List.countP_mono_left fun v _ hv => ?_
  simp only [Bool.not_eq_true', decide_eq_false_iff_not] at hv ⊢
  exact fun hvisited => hv (h v hvisited)

theorem unvisited_enter_lt {s : State α} {node : α} (hmem : node ∈ nodes)
    (hnode : ¬ s.Visited node) : unvisited nodes (enter node s) < unvisited nodes s := by
  obtain ⟨before, after, rfl⟩ := List.append_of_mem hmem
  have hmono : ∀ v, s.Visited v → (enter node s).Visited v :=
    fun _ => (enter_frame hnode).visited
  have hbefore : unvisited before (enter node s) ≤ unvisited before s := unvisited_le hmono
  have hafter : unvisited after (enter node s) ≤ unvisited after s := unvisited_le hmono
  have hopened : (enter node s).Visited node := (enter_visited_iff s node).mpr (.inl rfl)
  simp only [unvisited] at hbefore hafter ⊢
  simp only [List.countP_append, List.countP_cons, hopened, hnode, decide_true, decide_false,
    Bool.not_true, Bool.not_false, ↓reduceIte, Bool.false_eq_true]
  omega

theorem scan_loopInvariant {gray done : List α} {node target : α} {s s' : State α}
    {recurse : α → State α → State α}
    (h : LoopInvariant adjacency nodes gray node s done s')
    (hnode : ¬ s.Visited node) (hedge : target ∈ adjacency node)
    (hrecurse : ¬ s'.Visited target →
      VisitSpec adjacency nodes (node :: gray) target s' (recurse target s')) :
    LoopInvariant adjacency nodes gray node s (done ++ [target])
      (scan recurse node s' target) := by
  by_cases htarget : s'.Visited target
  · have hindexes : s'.indexes target ≠ none := htarget
    by_cases hstack : target ∈ s'.stack
    · have hon : s'.onStack target = true := (h.invariant.onStack target).mpr hstack
      simp only [scan, hindexes, hon, ↓reduceIte]
      exact scan_onStack h hnode hedge hstack
    · have hon : ¬ s'.onStack target = true :=
        fun hon => hstack ((h.invariant.onStack target).mp hon)
      simp only [scan, hindexes, hon, ↓reduceIte]
      exact scan_closed h htarget hstack
  · have hindexes : s'.indexes target = none := not_not.mp htarget
    simp only [scan, hindexes, ↓reduceIte]
    exact scan_unvisited h hnode hedge htarget (hrecurse htarget)

theorem foldl_scan_loopInvariant {gray : List α} {node : α} {s : State α}
    {recurse : α → State α → State α} (hnode : ¬ s.Visited node)
    (hrecurse : ∀ done s' target, LoopInvariant adjacency nodes gray node s done s' →
      target ∈ adjacency node → ¬ s'.Visited target →
      VisitSpec adjacency nodes (node :: gray) target s' (recurse target s'))
    (targets : List α) : ∀ done s', done ++ targets = adjacency node →
      LoopInvariant adjacency nodes gray node s done s' →
      LoopInvariant adjacency nodes gray node s (adjacency node)
        (targets.foldl (scan recurse node) s') := by
  induction targets with
  | nil =>
      intro done s' hdone h
      rw [List.append_nil] at hdone
      exact hdone ▸ h
  | cons target targets ih =>
      intro done s' hdone h
      have hedge : target ∈ adjacency node := by simp [← hdone]
      exact ih (done ++ [target]) _ (by simp [hdone])
        (scan_loopInvariant h hnode hedge (hrecurse done s' target h hedge))

theorem unvisited_lt_of_loop {gray done : List α} {node : α} {s s' : State α}
    (hmem : node ∈ nodes) (hnode : ¬ s.Visited node)
    (h : LoopInvariant adjacency nodes gray node s done s') :
    unvisited nodes s' < unvisited nodes s := by
  have hle : unvisited nodes s' ≤ unvisited nodes (enter node s) := by
    refine unvisited_le fun v hv => ?_
    obtain rfl | hv := (enter_visited_iff s v).mp hv
    · exact h.visited
    · exact h.frame.visited hv
  exact lt_of_le_of_lt hle (unvisited_enter_lt hmem hnode)

omit [LinearOrder α] in
theorem reach_of_gray {gray : List α} {node target : α} (hedge : target ∈ adjacency node)
    (hgray : ∀ g ∈ gray, Reach adjacency g node) :
    ∀ g ∈ node :: gray, Reach adjacency g target := by
  intro g hg
  rcases List.mem_cons.mp hg with rfl | hg
  · exact .single hedge
  · exact (hgray g hg).tail hedge

/-- One call establishes its specification when the fuel covers what is unvisited. -/
theorem visit_spec (hclosed : ∀ v ∈ nodes, ∀ w ∈ adjacency v, w ∈ nodes) (fuel : Nat) :
    ∀ (gray : List α) (node : α) (s : State α), Invariant adjacency nodes gray s →
      node ∈ nodes → ¬ s.Visited node → (∀ g ∈ gray, Reach adjacency g node) →
      unvisited nodes s ≤ fuel →
      VisitSpec adjacency nodes gray node s (visit adjacency fuel node s) := by
  induction fuel with
  | zero =>
      intro gray node s _ hmem hnode _ hfuel
      have := unvisited_enter_lt hmem hnode
      omega
  | succ fuel ih =>
      intro gray node s hinv hmem hnode hgray hfuel
      have hloop := foldl_scan_loopInvariant hnode
        (fun done s' target h hedge htarget => by
          have hless := unvisited_lt_of_loop hmem hnode h
          exact ih (node :: gray) target s' h.invariant (hclosed node hmem target hedge) htarget
            (reach_of_gray hedge hgray) (by omega))
        (adjacency node) [] (enter node s) rfl (enter_loopInvariant hinv hmem hnode hgray)
      obtain ⟨above, habove⟩ := hloop.pushed
      have hfinished : Finished adjacency nodes gray node s _ above :=
        ⟨hloop, hinv, hnode, habove⟩
      by_cases hroot : ((adjacency node).foldl (scan (visit adjacency fuel) node)
          (enter node s)).lows node = s.index
      · exact rootSpec hfinished hroot
      · exact otherSpec hfinished hroot

theorem initial_invariant : Invariant adjacency nodes [] (initial : State α) := by
  constructor <;> simp [initial, State.Visited, State.Closed, SuccessorsFirst]

/-- Between the calls of the outer loop no node is open. -/
theorem Invariant.stack_eq_nil {s : State α} (h : Invariant adjacency nodes [] s) :
    s.stack = [] := by
  refine List.eq_nil_iff_forall_not_mem.mpr fun v hv => ?_
  obtain ⟨g, hg, -⟩ := h.rooted v hv
  simp at hg

theorem visitNew_invariant (hclosed : ∀ v ∈ nodes, ∀ w ∈ adjacency v, w ∈ nodes)
    {s : State α} (h : Invariant adjacency nodes [] s) {root : α} (hroot : root ∈ nodes) :
    Invariant adjacency nodes [] (visitNew adjacency nodes.length s root) ∧
      ∀ v, v = root ∨ s.Visited v → (visitNew adjacency nodes.length s root).Visited v := by
  by_cases hvisited : s.Visited root
  · have hindexes : s.indexes root ≠ none := hvisited
    simp only [visitNew, hindexes, ↓reduceIte]
    exact ⟨h, fun v hv => hv.elim (fun heq => heq ▸ hvisited) id⟩
  · have hindexes : s.indexes root = none := not_not.mp hvisited
    simp only [visitNew, hindexes, ↓reduceIte]
    have hspec := visit_spec hclosed nodes.length [] root s h hroot hvisited (by simp)
      List.countP_le_length
    exact ⟨hspec.invariant, fun v hv =>
      hv.elim (fun heq => heq ▸ hspec.visited) hspec.frame.visited⟩

theorem foldl_visitNew_invariant (hclosed : ∀ v ∈ nodes, ∀ w ∈ adjacency v, w ∈ nodes)
    (roots : List α) : ∀ s : State α, (∀ v ∈ roots, v ∈ nodes) →
      Invariant adjacency nodes [] s →
      Invariant adjacency nodes [] (roots.foldl (visitNew adjacency nodes.length) s) ∧
      ∀ v, v ∈ roots ∨ s.Visited v →
        (roots.foldl (visitNew adjacency nodes.length) s).Visited v := by
  induction roots with
  | nil => exact fun s _ h => ⟨h, fun v hv => hv.resolve_left (by simp)⟩
  | cons root roots ih =>
      intro s hroots h
      have hnext := visitNew_invariant hclosed h (hroots root List.mem_cons_self)
      obtain ⟨hinv, hvisited⟩ := ih _ (fun v hv => hroots v (List.mem_cons_of_mem _ hv)) hnext.1
      refine ⟨hinv, fun v hv => hvisited v ?_⟩
      rcases hv with hv | hv
      · rcases List.mem_cons.mp hv with rfl | hv
        · exact .inr (hnext.2 v (.inl rfl))
        · exact .inl hv
      · exact .inr (hnext.2 v (.inr hv))

end Run

/-! ## The result -/

/-- A list of strongly connected components of `nodes`, successors first. -/
structure Components (adjacency : α → List α) (nodes : List α) (result : List (List α)) :
    Prop where
  isComponent : ∀ component ∈ result, IsComponent adjacency component
  covers : ∀ v, v ∈ nodes ↔ ∃ component ∈ result, v ∈ component
  disjoint : result.Pairwise List.Disjoint
  ordered : SuccessorsFirst adjacency result

theorem components_spec {nodes : List α} {adjacency : α → List α}
    (hclosed : ∀ v ∈ nodes, ∀ w ∈ adjacency v, w ∈ nodes) :
    Components adjacency nodes (components nodes adjacency) := by
  obtain ⟨hinv, hvisited⟩ := foldl_visitNew_invariant hclosed (nodes.insertionSort (· ≤ ·))
    initial (fun v hv => (List.mem_insertionSort _).mp hv) initial_invariant
  refine ⟨hinv.sound, fun v => ?_, hinv.disjoint, hinv.ordered⟩
  have hclosed' := hinv.closed v
  rw [hinv.stack_eq_nil] at hclosed'
  constructor
  · exact fun hv => hclosed'.mpr
      ⟨hvisited v (.inl ((List.mem_insertionSort _).mpr hv)), List.not_mem_nil⟩
  · exact fun hv => hinv.inside v (hclosed'.mp hv).1

end CppContextEngine.Foundation.Tarjan
