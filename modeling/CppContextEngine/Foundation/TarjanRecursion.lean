import CppContextEngine.Foundation.Tarjan

/-!
# The recursion of Tarjan's algorithm

The recursion of `visit` with everything that can go wrong: the stack is popped
when it is empty, a popped member is not marked, or the calls nest deeper than
the fuel.  None of it happens when the fuel covers the nodes.
-/

namespace CppContextEngine.Foundation.Tarjan

variable {α : Type} [LinearOrder α]

/-! ## The recursion -/

/-- Pop and unmark members until `node` is popped. -/
def popMarked (node : α) : List α → (α → Bool) → Option (List α × List α × (α → Bool))
  | [], _ => none
  | member :: rest, onStack =>
      if onStack member then
        let onStack := Function.update onStack member false
        if member = node then some ([member], rest, onStack)
        else (popMarked node rest onStack).map fun (component, stack, onStack) =>
          (member :: component, stack, onStack)
      else none

def close (node : α) (s : State α) : Option (State α) :=
  if s.indexes node ≠ some (s.lows node) then some s
  else (popMarked node s.stack s.onStack).map fun (component, stack, onStack) =>
    { s with
      stack := stack
      onStack := onStack
      result := s.result ++ [component.insertionSort (· ≤ ·)] }

def follow (recurse : α → State α → Option (State α)) (node : α) (s : State α)
    (target : α) : Option (State α) :=
  if s.indexes target = none then
    (recurse target s).map fun s => lowerTo node (s.lows target) s
  else if s.onStack target then
    some (lowerTo node ((s.indexes target).getD 0) s)
  else some s

def descend (adjacency : α → List α) : Nat → α → State α → Option (State α)
  | 0, _, _ => none
  | fuel + 1, node, s =>
      ((adjacency node).foldlM (follow (descend adjacency fuel) node) (enter node s)).bind
        (close node)

def descendNew (adjacency : α → List α) (fuel : Nat) (s : State α) (node : α) :
    Option (State α) :=
  if s.indexes node = none then descend adjacency fuel node s else some s

/-- The components, unless the calls nest deeper than `fuel`. -/
def run (fuel : Nat) (nodes : List α) (adjacency : α → List α) : Option (List (List α)) :=
  ((nodes.insertionSort (· ≤ ·)).foldlM (descendNew adjacency fuel) initial).map State.result

/-! ## More fuel changes nothing -/

omit [LinearOrder α] in
theorem foldlM_some_of_le {σ : Type} {step step' : σ → α → Option σ}
    (hstep : ∀ s item s', step s item = some s' → step' s item = some s')
    (items : List α) : ∀ s s', items.foldlM step s = some s' → items.foldlM step' s = some s' := by
  induction items with
  | nil => exact fun s s' h => h
  | cons item items ih =>
      intro s s' h
      rw [List.foldlM_cons, Option.bind_eq_bind, Option.bind_eq_some_iff] at h ⊢
      obtain ⟨next, hnext, hrest⟩ := h
      exact ⟨next, hstep s item next hnext, ih next s' hrest⟩

theorem follow_some_of_le {recurse recurse' : α → State α → Option (State α)}
    (hrecurse : ∀ target s s', recurse target s = some s' → recurse' target s = some s')
    (node : α) (s : State α) (target : α) (s' : State α)
    (h : follow recurse node s target = some s') : follow recurse' node s target = some s' := by
  unfold follow at h ⊢
  by_cases hnew : s.indexes target = none
  · rw [if_pos hnew, Option.map_eq_some_iff] at h ⊢
    obtain ⟨next, hnext, hlower⟩ := h
    exact ⟨next, hrecurse target s next hnext, hlower⟩
  · rw [if_neg hnew] at h ⊢
    exact h

theorem descend_succ (adjacency : α → List α) (fuel : Nat) : ∀ node s s',
    descend adjacency fuel node s = some s' → descend adjacency (fuel + 1) node s = some s' := by
  induction fuel with
  | zero => exact fun node s s' h => by simp [descend] at h
  | succ fuel ih =>
      intro node s s' h
      rw [descend, Option.bind_eq_some_iff] at h ⊢
      obtain ⟨scanned, hscanned, hclose⟩ := h
      exact ⟨scanned, foldlM_some_of_le (follow_some_of_le ih node) _ _ _ hscanned, hclose⟩

theorem descendNew_succ (adjacency : α → List α) (fuel : Nat) (s : State α) (node : α)
    (s' : State α) (h : descendNew adjacency fuel s node = some s') :
    descendNew adjacency (fuel + 1) s node = some s' := by
  unfold descendNew at h ⊢
  by_cases hnew : s.indexes node = none
  · rw [if_pos hnew] at h ⊢
    exact descend_succ adjacency fuel node s s' h
  · rw [if_neg hnew] at h ⊢
    exact h

theorem run_mono {nodes : List α} {adjacency : α → List α} {fuel fuel' : Nat}
    {result : List (List α)} (h : run fuel nodes adjacency = some result)
    (hle : fuel ≤ fuel') : run fuel' nodes adjacency = some result := by
  induction hle with
  | refl => exact h
  | step _ ih =>
      rw [run, Option.map_eq_some_iff] at ih ⊢
      obtain ⟨s, hs, hresult⟩ := ih
      exact ⟨s, foldlM_some_of_le (descendNew_succ adjacency _) _ _ _ hs, hresult⟩

/-! ## The recursion succeeds -/

theorem popMarked_append {node : α} {above rest : List α} : ∀ {onStack : α → Bool},
    (above ++ [node]).Nodup → (∀ v ∈ above ++ [node], onStack v = true) →
    popMarked node (above ++ node :: rest) onStack =
      some (above ++ [node], rest,
        fun member => onStack member && !decide (member ∈ above ++ [node])) := by
  induction above with
  | nil =>
      intro onStack _ hmarked
      have hunmarked : Function.update onStack node false =
          fun member => onStack member && !decide (member ∈ [node]) := by
        funext member
        by_cases hmember : member = node <;> simp [Function.update, hmember]
      simp [popMarked, hmarked node (by simp), hunmarked]
  | cons member above ih =>
      intro onStack hnodup hmarked
      rw [List.cons_append, List.nodup_cons] at hnodup
      have hne : member ≠ node := by
        rintro rfl
        exact hnodup.1 (by simp)
      have hrest : ∀ v ∈ above ++ [node], Function.update onStack member false v = true := by
        intro v hv
        have hvne : v ≠ member := fun heq => hnodup.1 (heq ▸ hv)
        rw [Function.update_of_ne hvne]
        exact hmarked v (List.mem_cons_of_mem _ hv)
      have hunmarked : (fun v => Function.update onStack member false v &&
          !decide (v ∈ above ++ [node])) =
          fun v => onStack v && !decide (v ∈ member :: above ++ [node]) := by
        funext v
        by_cases hv : v = member <;> simp [Function.update, hv]
      rw [List.cons_append, popMarked, if_pos (hmarked member List.mem_cons_self)]
      simp only [hne, ↓reduceIte, ih hnodup.2 hrest, Option.map_some, hunmarked,
        List.cons_append]

section Runs

variable {adjacency : α → List α} {nodes gray : List α}

theorem close_eq {node : α} {s s' : State α} {above : List α}
    (h : Finished adjacency nodes gray node s s' above) :
    close node s' = some (leave node s') := by
  by_cases hroot : s'.lows node = s.index
  · have hlow : s'.indexes node = some (s'.lows node) := by rw [h.loop.opened, hroot]
    have hnodup : (above ++ [node]).Nodup := by
      have hall := h.nodup
      rw [List.append_cons] at hall
      exact (List.nodup_append.mp hall).1
    have hmarked : ∀ v ∈ above ++ [node], s'.onStack v = true := fun v hv =>
      (h.loop.invariant.onStack v).mpr ((h.mem_stack_iff v).mpr (.inl hv))
    rw [leave_root h hroot]
    simp [close, hlow, h.stack, popMarked_append hnodup hmarked]
  · have hlow : s'.indexes node ≠ some (s'.lows node) := by
      rw [h.loop.opened]
      simpa using Ne.symm hroot
    rw [leave_other h hroot, close, if_pos hlow]

theorem follow_eq {node target : α} {s : State α} {recurse : α → State α → Option (State α)}
    {total : α → State α → State α}
    (hrecurse : ¬ s.Visited target → recurse target s = some (total target s)) :
    follow recurse node s target = some (scan total node s target) := by
  unfold follow scan
  split
  · rename_i hnone
    simp [hrecurse (not_not.mpr hnone)]
  · split <;> rfl

theorem foldlM_follow_eq {node : α} {s : State α} {recurse : α → State α → Option (State α)}
    {total : α → State α → State α} (hnode : ¬ s.Visited node)
    (hrecurse : ∀ done s' target, LoopInvariant adjacency nodes gray node s done s' →
      target ∈ adjacency node → ¬ s'.Visited target →
      recurse target s' = some (total target s') ∧
        VisitSpec adjacency nodes (node :: gray) target s' (total target s'))
    (targets : List α) : ∀ done s', done ++ targets = adjacency node →
      LoopInvariant adjacency nodes gray node s done s' →
      targets.foldlM (follow recurse node) s' =
        some (targets.foldl (scan total node) s') := by
  induction targets with
  | nil => exact fun done s' _ _ => rfl
  | cons target targets ih =>
      intro done s' hdone h
      have hedge : target ∈ adjacency node := by simp [← hdone]
      rw [List.foldlM_cons, follow_eq fun hnew => (hrecurse done s' target h hedge hnew).1]
      exact ih (done ++ [target]) _ (by simp [hdone])
        (scan_loopInvariant h hnode hedge fun hnew => (hrecurse done s' target h hedge hnew).2)

theorem descend_eq (hclosed : ∀ v ∈ nodes, ∀ w ∈ adjacency v, w ∈ nodes) (fuel : Nat) :
    ∀ (gray : List α) (node : α) (s : State α), Invariant adjacency nodes gray s →
      node ∈ nodes → ¬ s.Visited node → (∀ g ∈ gray, Reach adjacency g node) →
      unvisited nodes s ≤ fuel →
      descend adjacency fuel node s = some (visit adjacency fuel node s) := by
  induction fuel with
  | zero =>
      intro gray node s _ hmem hnode _ hfuel
      have := unvisited_enter_lt hmem hnode
      omega
  | succ fuel ih =>
      intro gray node s hinv hmem hnode hgray hfuel
      have hcall : ∀ done s' target,
          LoopInvariant adjacency nodes gray node s done s' → target ∈ adjacency node →
          ¬ s'.Visited target →
          descend adjacency fuel target s' = some (visit adjacency fuel target s') ∧
            VisitSpec adjacency nodes (node :: gray) target s'
              (visit adjacency fuel target s') := by
        intro done s' target h hedge htarget
        have hreach := reach_of_gray hedge hgray
        have hless := unvisited_lt_of_loop hmem hnode h
        have hinside := hclosed node hmem target hedge
        exact ⟨ih (node :: gray) target s' h.invariant hinside htarget hreach (by omega),
          visit_spec hclosed fuel (node :: gray) target s' h.invariant hinside htarget hreach
            (by omega)⟩
      have henter := enter_loopInvariant hinv hmem hnode hgray
      have hloop := foldl_scan_loopInvariant hnode
        (fun done s' target h hedge htarget => (hcall done s' target h hedge htarget).2)
        (adjacency node) [] (enter node s) rfl henter
      obtain ⟨above, habove⟩ := hloop.pushed
      rw [descend, foldlM_follow_eq hnode hcall (adjacency node) [] (enter node s) rfl henter]
      exact close_eq ⟨hloop, hinv, hnode, habove⟩

theorem foldlM_descendNew_eq (hclosed : ∀ v ∈ nodes, ∀ w ∈ adjacency v, w ∈ nodes)
    (roots : List α) : ∀ s : State α, (∀ v ∈ roots, v ∈ nodes) →
      Invariant adjacency nodes [] s →
      roots.foldlM (descendNew adjacency nodes.length) s =
        some (roots.foldl (visitNew adjacency nodes.length) s) := by
  induction roots with
  | nil => exact fun s _ _ => rfl
  | cons root roots ih =>
      intro s hroots h
      have hroot := hroots root List.mem_cons_self
      have hnew : descendNew adjacency nodes.length s root =
          some (visitNew adjacency nodes.length s root) := by
        unfold descendNew visitNew
        split
        · rename_i hnone
          exact descend_eq hclosed nodes.length [] root s h hroot (not_not.mpr hnone) (by simp)
            List.countP_le_length
        · rfl
      rw [List.foldlM_cons, hnew]
      exact ih _ (fun v hv => hroots v (List.mem_cons_of_mem _ hv))
        (visitNew_invariant hclosed h hroot).1

end Runs

/-- A recursion as deep as there are nodes finds the components. -/
theorem run_eq {nodes : List α} {adjacency : α → List α}
    (hclosed : ∀ v ∈ nodes, ∀ w ∈ adjacency v, w ∈ nodes) {fuel : Nat}
    (hfuel : nodes.length ≤ fuel) :
    run fuel nodes adjacency = some (components nodes adjacency) := by
  have hroots : ∀ v ∈ nodes.insertionSort (· ≤ ·), v ∈ nodes := fun v hv =>
    (List.mem_insertionSort _).mp hv
  have hrun : run nodes.length nodes adjacency = some (components nodes adjacency) := by
    rw [run, foldlM_descendNew_eq hclosed _ initial hroots initial_invariant]
    rfl
  exact run_mono hrun hfuel

example : run 5 [3, 1, 0, 2, 1] (fun n => if n = 0 then [1] else if n = 1 then [0, 2] else [n]) =
    some [[2], [0, 1], [3]] := by decide

end CppContextEngine.Foundation.Tarjan
