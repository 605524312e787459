import CppContextEngine.Analysis.Passes

/-!
# The acyclic fast path

A component of one body that does not call itself is transferred once.  The
general loop would transfer it a second time, find nothing changed and stop, or
stop at a limit of one iteration; the fast path leaves exactly what it leaves.
-/

namespace CppContextEngine.Analysis

open CppContextEngine.Foundation CppContextEngine.Models

variable [Fingerprint]

namespace Problem

variable (p : Problem) {σ : Type}

/-! ## The run without the fast path -/

/-- `solveComponent` where every component goes through the general loop. -/
def iterateComponent (emit : Emitter σ) (retain : Bool) (run : Run σ)
    (component : List String) : Except SolverError (Run σ) := do
  let members := p.members component
  let (current, iterationCount) := p.solveCycle members run.held.current
  let run ← members.foldlM (p.publish emit iterationCount)
    { run with held := { run.held with current := current } }
  return if retain then run else { run with held := p.evict component run.held }

/-- `_solve_variant` without its branch for a single transfer. -/
def iterateVariant (emit : Emitter σ) (retain : Bool) (owner : σ) :
    Except SolverError (InterproceduralSolution × σ) := do
  let run ← p.components.foldlM (p.iterateComponent emit retain) (p.initialRun owner)
  return (
    { summaries := run.summaries.insertionSort fun item other => item.id ≤ other.id
      effects := if retain then run.held.current.items.flatMap Facts.effects else []
      returnOrigins := if retain then run.held.current.items.flatMap Facts.origins else []
      flows := run.flows.items }, run.owner)

/-! ## One body that does not call itself -/

section Single

variable {p} {caller : FunctionSummary} (hsummary : p.summaryById caller.id = some caller)
  (hself : caller.id ∉ p.adjacency caller.id)

include hsummary hself

theorem transfer_insert_self (current : Environment) (facts : Facts) :
    p.transfer (current.insert caller.id facts) caller = p.transfer current caller := by
  refine (SameView.refl p caller).transfer fun id hid => ?_
  obtain ⟨edge, hedge, rfl⟩ := hid
  have hne : caller.id ≠ edge.callee.id := by
    intro heq
    apply hself
    rw [heq]
    exact heq ▸ p.adjacency_of_callerEdges hsummary hedge
  simp [Table.getElem?_insert, hne]

/-- The second iteration finds nothing to change. -/
theorem settled_after_transfer (current : Environment) :
    p.settled [caller] (p.round [caller] current) = true := by
  simp [settled, round, transfer_insert_self hsummary hself, Table.getElem?_insert]

theorem round_round (current : Environment) :
    p.round [caller] (p.round [caller] current) = p.round [caller] current := by
  simp only [round, List.foldl_cons, List.foldl_nil, transfer_insert_self hsummary hself]
  exact Table.insert_insert _ _ _ _

theorem iterate_single (limit : Nat) (current : Environment) :
    p.iterate [caller] (limit + 1) 0 current =
      if current[caller.id]? = some (p.transfer current caller) then
        (p.round [caller] current, 1, true)
      else (p.round [caller] current, if limit = 0 then 1 else 2, decide (limit ≠ 0)) := by
  have hsettled : p.settled [caller] current =
      decide (current[caller.id]? = some (p.transfer current caller)) := by
    simp [settled]
  by_cases hchanged : current[caller.id]? = some (p.transfer current caller)
  · simp [iterate, hsettled, hchanged]
  · cases limit with
    | zero => simp [iterate, hsettled, hchanged]
    | succ limit =>
        simp [iterate, hsettled, hchanged, settled_after_transfer hsummary hself,
          round_round hsummary hself]

theorem solveSingle_eq_solveCycle (hsize : p.oversizedMembers [caller] = false)
    (current : Environment) :
    p.solveSingle caller current = p.solveCycle [caller] current := by
  obtain ⟨limit, hlimit⟩ : ∃ limit, p.limits.maxSccIterations = limit + 1 :=
    Nat.exists_eq_succ_of_ne_zero p.limits.positive.1.ne'
  have hiterations : p.iterationLimit [caller] = limit + 1 := by
    simp [iterationLimit, hsize, hlimit]
  simp only [solveCycle, hiterations, iterate_single hsummary hself, hsize, Bool.or_false]
  by_cases hchanged : current[caller.id]? = some (p.transfer current caller)
  · simp [solveSingle, hchanged, round, Reasons.noteIf]
  · cases limit with
    | zero =>
        simp [solveSingle, hchanged, hlimit, round, Reasons.noteIf, noteIterationCap,
          Table.insert_insert]
    | succ limit => simp [solveSingle, hchanged, hlimit, round, Reasons.noteIf]

end Single

/-! ## Whole runs -/

section Runs

variable {before after : List (List String)} {component : List String}

theorem solveMembers_eq_solveCycle (hsplit : p.components = before ++ component :: after)
    (current : Environment) :
    p.solveMembers (p.members component) current = p.solveCycle (p.members component) current := by
  by_cases hsingle : ∃ caller, p.members component = [caller] ∧
      caller.id ∉ p.adjacency caller.id
  · obtain ⟨caller, hmembers, hself⟩ := hsingle
    have hmem : caller ∈ p.members component := by simp [hmembers]
    obtain ⟨hid, hsummary⟩ := (p.mem_members).mp hmem
    have hone : component.length = 1 := by
      have hids := p.map_id_members (hsplit ▸ List.mem_append_right _ List.mem_cons_self)
      rw [← hids, hmembers]
      rfl
    have hsize : p.oversizedMembers [caller] = false := by
      have hpositive := p.limits.positive.2.1
      have hoversized := isOversized_iff hsplit hid
      simp only [oversizedMembers, List.any_cons, List.any_nil, Bool.or_false,
        Bool.eq_false_iff, ne_eq, hoversized]
      omega
    rw [hmembers, p.solveMembers_single hself]
    exact solveSingle_eq_solveCycle hsummary hself hsize current
  · exact p.solveMembers_cycle hsingle current

theorem solveComponent_eq_iterateComponent (emit : Emitter σ) (retain : Bool) (run : Run σ)
    (hsplit : p.components = before ++ component :: after) :
    p.solveComponent emit retain run component = p.iterateComponent emit retain run component := by
  simp only [solveComponent, iterateComponent, p.solveMembers_eq_solveCycle hsplit]

theorem foldlM_solveComponent_eq (emit : Emitter σ) (retain : Bool)
    (after : List (List String)) : ∀ (before : List (List String)) (run : Run σ),
      p.components = before ++ after →
      after.foldlM (p.solveComponent emit retain) run =
        after.foldlM (p.iterateComponent emit retain) run := by
  induction after with
  | nil => exact fun before run _ => rfl
  | cons component after ih =>
      intro before run hsplit
      rw [List.foldlM_cons, List.foldlM_cons, p.solveComponent_eq_iterateComponent emit retain run
        hsplit]
      refine bind_congr fun next => ih (before ++ [component]) next ?_
      simp [hsplit]

end Runs

/-- Without the fast path every solution, retained or streamed, is the same. -/
theorem solveVariant_eq_iterateVariant (emit : Emitter σ) (retain : Bool) (owner : σ) :
    p.solveVariant emit retain owner = p.iterateVariant emit retain owner := by
  simp only [solveVariant, iterateVariant,
    p.foldlM_solveComponent_eq emit retain p.components [] (p.initialRun owner) rfl]

end Problem

end CppContextEngine.Analysis
