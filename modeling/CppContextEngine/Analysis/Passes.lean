import CppContextEngine.Analysis.Publication

/-!
# The passes over a component

A member keeps the result of the last pass over its component.  When neither
the size nor the iteration limit stopped the component early, that result is
the transfer of the final environment.
-/

namespace CppContextEngine.Analysis

open CppContextEngine.Foundation CppContextEngine.Models

variable [Fingerprint] (p : Problem)

namespace Problem

/-- The component is one body that does not call itself. -/
def Single (members : List FunctionSummary) : Prop :=
  ∃ caller, members = [caller] ∧ caller.id ∉ p.adjacency caller.id

/-- The environment before pass `pass` over `members`. -/
def environmentAt (members : List FunctionSummary) (current : Environment) (pass : Nat) :
    Environment :=
  (p.round members)^[pass] current

/-- The last pass is `pass`. -/
def LastPass (members : List FunctionSummary) (current : Environment) (pass : Nat) : Prop :=
  (p.Single members ∧ pass = 0) ∨
    (¬ p.Single members ∧
      pass + 1 = (p.iterate members (p.iterationLimit members) 0 current).2.1)

/-- The iteration limit ended the component before a pass confirmed its facts. -/
def IterationCapHit (members : List FunctionSummary) (current : Environment) : Prop :=
  p.limits.maxSccIterations = 1 ∧ p.Single members ∧ p.settled members current = false ∨
    ¬ p.Single members ∧ p.oversizedMembers members = false ∧
      (p.iterate members (p.iterationLimit members) 0 current).2.2 = false

variable {p} {members : List FunctionSummary} {current : Environment}

/-! ## Rounds -/

omit [Fingerprint] in
theorem foldl_insert_member {facts : FunctionSummary → Facts}
    (hnodup : (members.map FunctionSummary.id).Nodup) {caller : FunctionSummary}
    (hcaller : caller ∈ members) : ∀ current : Environment,
    (members.foldl (fun next caller => next.insert caller.id (facts caller))
      current)[caller.id]? = some (facts caller) := by
  induction members with
  | nil => simp at hcaller
  | cons first members ih =>
      intro current
      rw [List.map_cons, List.nodup_cons] at hnodup
      rcases List.mem_cons.mp hcaller with rfl | hmem
      · rw [List.foldl_cons, foldl_insert_frame hnodup.1, Table.getElem?_insert, if_pos rfl]
      · exact ih hnodup.2 hmem _

theorem round_member (hnodup : (members.map FunctionSummary.id).Nodup)
    {caller : FunctionSummary} (hcaller : caller ∈ members) (current : Environment) :
    (p.round members current)[caller.id]? = some (p.transfer current caller) :=
  foldl_insert_member hnodup hcaller current

theorem round_frame {id : String} (hid : id ∉ members.map FunctionSummary.id)
    (current : Environment) : (p.round members current)[id]? = current[id]? :=
  foldl_insert_frame hid current

theorem round_of_settled (hnodup : (members.map FunctionSummary.id).Nodup)
    (h : p.settled members current = true) : p.round members current = current := by
  refine Table.ext_getElem? fun id => ?_
  by_cases hid : id ∈ members.map FunctionSummary.id
  · obtain ⟨caller, hcaller, rfl⟩ := List.mem_map.mp hid
    rw [round_member hnodup hcaller]
    rw [settled, List.all_eq_true] at h
    exact (of_decide_eq_true (h caller hcaller)).symm
  · exact round_frame hid current

theorem environmentAt_succ (pass : Nat) : p.environmentAt members current (pass + 1) =
    p.round members (p.environmentAt members current pass) :=
  Function.iterate_succ_apply' _ _ _

theorem environmentAt_frame {id : String} (hid : id ∉ members.map FunctionSummary.id)
    (pass : Nat) : (p.environmentAt members current pass)[id]? = current[id]? := by
  induction pass with
  | zero => rfl
  | succ pass ih =>
      rw [environmentAt_succ, round_frame hid]
      exact ih

/-! ## The iteration -/

variable (p members) in
theorem iterate_spec (limit : Nat) : ∀ (count : Nat) (current : Environment),
    ∃ done, done ≤ limit ∧ (p.iterate members limit count current).1 =
        p.environmentAt members current done ∧
      (p.iterate members limit count current).2.1 = count + done ∧
      ((p.iterate members limit count current).2.2 = true →
        ∃ pass, done = pass + 1 ∧
          p.settled members (p.environmentAt members current pass) = true) ∧
      ((p.iterate members limit count current).2.2 = false → done = limit ∧ ∀ pass < limit,
        p.settled members (p.environmentAt members current pass) = false) := by
  induction limit with
  | zero =>
      exact fun count current => ⟨0, le_rfl, rfl, rfl, by simp [iterate], fun _ => ⟨rfl, by simp⟩⟩
  | succ limit ih =>
      intro count current
      simp only [iterate]
      split
      · rename_i hsettled
        exact ⟨1, by omega, rfl, rfl, fun _ => ⟨0, rfl, hsettled⟩, by simp⟩
      · rename_i hnot
        obtain ⟨done, hle, henv, hcount, hconverged, hcapped⟩ :=
          ih (count + 1) (p.round members current)
        refine ⟨done + 1, by omega, henv, by rw [hcount]; omega, fun h => ?_, fun h => ?_⟩
        · obtain ⟨pass, rfl, hsettled⟩ := hconverged h
          exact ⟨pass + 1, rfl, hsettled⟩
        · obtain ⟨rfl, hunsettled⟩ := hcapped h
          refine ⟨rfl, fun pass hpass => ?_⟩
          cases pass with
          | zero => exact Bool.eq_false_iff.mpr hnot
          | succ pass => exact hunsettled pass (by omega)

omit [Fingerprint] in
theorem iterationLimit_pos : 0 < p.iterationLimit members := by
  unfold iterationLimit
  split
  · omega
  · exact p.limits.positive.1

/-- A pass that does not settle is never the only one of a converged iteration. -/
theorem iterate_passes (members : List FunctionSummary) (current : Environment) :
    ∃ pass, pass + 1 = (p.iterate members (p.iterationLimit members) 0 current).2.1 ∧
      (p.iterate members (p.iterationLimit members) 0 current).1 =
        p.environmentAt members current (pass + 1) ∧
      ((p.iterate members (p.iterationLimit members) 0 current).2.2 = true →
        p.settled members (p.environmentAt members current pass) = true) := by
  obtain ⟨done, -, henv, hcount, hconverged, hcapped⟩ :=
    p.iterate_spec members (p.iterationLimit members) 0 current
  have hpositive : 0 < done := by
    cases hflag : (p.iterate members (p.iterationLimit members) 0 current).2.2 with
    | false =>
        rw [(hcapped hflag).1]
        exact iterationLimit_pos
    | true =>
        obtain ⟨pass, hpass, -⟩ := hconverged hflag
        omega
  obtain ⟨pass, rfl⟩ := Nat.exists_eq_succ_of_ne_zero hpositive.ne'
  refine ⟨pass, by omega, henv, fun h => ?_⟩
  obtain ⟨pass', hpass', hsettled⟩ := hconverged h
  rwa [show pass = pass' by omega]

/-! ## What a member keeps -/

omit [Fingerprint] in
theorem foldl_noteIterationCap_member (hnodup : (members.map FunctionSummary.id).Nodup)
    {caller : FunctionSummary} (hcaller : caller ∈ members) {facts : Facts} :
    ∀ {current : Environment}, current[caller.id]? = some facts →
      (members.foldl noteIterationCap current)[caller.id]? =
        some { facts with reasons := facts.reasons.note .sccIterationCapExceeded } := by
  induction members with
  | nil => simp at hcaller
  | cons first members ih =>
      intro current h
      rw [List.map_cons, List.nodup_cons] at hnodup
      rcases List.mem_cons.mp hcaller with rfl | hmem
      · rw [List.foldl_cons, foldl_noteIterationCap_frame hnodup.1, noteIterationCap, h]
        simp
      · have hne : caller.id ≠ first.id := fun heq =>
          hnodup.1 (heq ▸ List.mem_map_of_mem hmem)
        exact ih hnodup.2 hmem (by rw [noteIterationCap_frame hne]; exact h)

/-- The facts of a member: the transfer of the last pass, and the cap reason if it was hit. -/
structure Outcome (p : Problem) (members : List FunctionSummary) (current : Environment)
    (caller : FunctionSummary) (pass : Nat) (facts : Facts) : Prop where
  last : p.LastPass members current pass
  effects : facts.effects = (p.transfer (p.environmentAt members current pass) caller).effects
  origins : facts.origins = (p.transfer (p.environmentAt members current pass) caller).origins
  reasons : ∀ text, text ∈ facts.reasons.texts ↔
    text ∈ (p.transfer (p.environmentAt members current pass) caller).reasons.texts ∨
      (p.IterationCapHit members current ∧
        text = IncompleteReason.sccIterationCapExceeded.text)

theorem solveSingle_outcome {caller : FunctionSummary}
    (hmem : caller.id ∉ p.adjacency caller.id) (current : Environment) :
    ∃ facts, (p.solveSingle caller current).1[caller.id]? = some facts ∧
      Outcome p [caller] current caller 0 facts := by
  have hsingle : p.Single [caller] := ⟨caller, rfl, hmem⟩
  refine ⟨_, by rw [solveSingle, Table.getElem?_insert, if_pos rfl], ?_⟩
  refine ⟨.inl ⟨hsingle, rfl⟩, rfl, rfl, fun text => ?_⟩
  simp only [Reasons.mem_noteIf, environmentAt, Function.iterate_zero, id_eq]
  refine or_congr_right (and_congr_left fun _ => ?_)
  simp only [IterationCapHit, hsingle, settled, List.all_cons, List.all_nil, Bool.and_true,
    decide_eq_false_iff_not, true_and, not_true_eq_false, false_and, or_false]
  exact and_comm

theorem solveCycle_outcome (hsingle : ¬ p.Single members)
    (hnodup : (members.map FunctionSummary.id).Nodup) {caller : FunctionSummary}
    (hcaller : caller ∈ members) (current : Environment) :
    ∃ pass facts, (p.solveCycle members current).1[caller.id]? = some facts ∧
      Outcome p members current caller pass facts := by
  obtain ⟨pass, hcount, henv, -⟩ := iterate_passes (p := p) members current
  have hround : (p.iterate members (p.iterationLimit members) 0 current).1[caller.id]? =
      some (p.transfer (p.environmentAt members current pass) caller) := by
    rw [henv, environmentAt_succ]
    exact round_member hnodup hcaller _
  simp only [solveCycle]
  split
  · rename_i hdone
    refine ⟨pass, _, hround, .inr ⟨hsingle, hcount⟩, rfl, rfl, fun text => ?_⟩
    have hcap : ¬ p.IterationCapHit members current := by
      rintro (⟨-, h, -⟩ | ⟨-, hsize, hflag⟩)
      · exact hsingle h
      · simp [hsize, hflag] at hdone
    simp [hcap]
  · rename_i hdone
    rw [Bool.or_eq_true, not_or, Bool.not_eq_true, Bool.not_eq_true] at hdone
    refine ⟨pass, _, foldl_noteIterationCap_member hnodup hcaller hround,
      .inr ⟨hsingle, hcount⟩, rfl, rfl, fun text => ?_⟩
    have hcap : p.IterationCapHit members current := .inr ⟨hsingle, hdone.2, hdone.1⟩
    simp [hcap, Reasons.mem_note]

theorem solveMembers_outcome (hnodup : (members.map FunctionSummary.id).Nodup)
    {caller : FunctionSummary} (hcaller : caller ∈ members) (current : Environment) :
    ∃ pass facts, (p.solveMembers members current).1[caller.id]? = some facts ∧
      Outcome p members current caller pass facts := by
  by_cases hsingle : p.Single members
  · obtain ⟨only, rfl, hmem⟩ := hsingle
    obtain rfl := List.mem_singleton.mp hcaller
    rw [p.solveMembers_single hmem]
    exact ⟨0, solveSingle_outcome hmem current⟩
  · rw [p.solveMembers_cycle hsingle]
    exact solveCycle_outcome hsingle hnodup hcaller current

/-! ## Stable members -/

section Stable

variable {before after : List (List String)} {component : List String}
  (hsplit : p.components = before ++ component :: after)

include hsplit

omit [Fingerprint] in
theorem members_nodup : ((p.members component).map FunctionSummary.id).Nodup := by
  have hmem : component ∈ p.components := hsplit ▸ List.mem_append_right _ List.mem_cons_self
  rw [p.map_id_members hmem]
  exact p.component_nodup hmem

omit [Fingerprint] in
theorem isOversized_iff {id : String} (hid : id ∈ component) :
    p.isOversized id = true ↔ p.limits.maxSccSize < component.length := by
  simp only [isOversized, List.any_eq_true, Bool.and_eq_true, decide_eq_true_eq]
  constructor
  · rintro ⟨other, hother, hsize, hid'⟩
    have hindex := p.componentIndex_of_split hsplit hid
    obtain ⟨before', after', hsplit'⟩ := List.append_of_mem hother
    rw [p.componentIndex_of_split hsplit' hid'] at hindex
    have hparts := List.append_inj (hsplit'.symm.trans hsplit) hindex
    rw [List.cons.injEq] at hparts
    exact hparts.2.1 ▸ hsize
  · exact fun hsize => ⟨component, hsplit ▸ List.mem_append_right _ List.mem_cons_self, hsize, hid⟩

theorem final_outcome {caller : FunctionSummary} (hcaller : caller ∈ p.members component) :
    ∃ pass facts, p.finalEnvironment[caller.id]? = some facts ∧
      Outcome p (p.members component) (p.environmentAfter before) caller pass facts := by
  have hid := ((p.mem_members).mp hcaller).1
  rw [p.final_eq_after hsplit (.inl hid), environmentAfter_append]
  exact solveMembers_outcome (members_nodup hsplit) hcaller _

/-- The last pass saw every callee as the final environment has it. -/
theorem lastPass_agrees {caller : FunctionSummary} (hcaller : caller ∈ p.members component)
    {pass : Nat} (hlast : p.LastPass (p.members component) (p.environmentAfter before) pass)
    (hsize : p.oversizedMembers (p.members component) = false)
    (hcap : ¬ p.IterationCapHit (p.members component) (p.environmentAfter before)) :
    Agree (CalleeOf p caller)
      (p.environmentAt (p.members component) (p.environmentAfter before) pass)
      p.finalEnvironment := by
  obtain ⟨hid, hsummary⟩ := (p.mem_members).mp hcaller
  have hmap := p.map_id_members (hsplit ▸ List.mem_append_right _ List.mem_cons_self)
  rintro _ ⟨edge, hedge, rfl⟩
  have hadjacent := p.adjacency_of_callerEdges hsummary hedge
  have hcallee := p.callee_component hsplit hid hadjacent
  rw [p.final_eq_after hsplit hcallee, environmentAfter_append]
  by_cases hinside : edge.callee.id ∈ component
  · rcases hlast with ⟨⟨only, honly, hself⟩, -⟩ | ⟨hsingle, hcount⟩
    · rw [honly, List.map_singleton] at hmap
      rw [honly, List.mem_singleton] at hcaller
      rw [← hmap, List.mem_singleton, ← hcaller] at hinside
      exact absurd (hinside ▸ hadjacent) (hcaller ▸ hself)
    · obtain ⟨pass', hcount', henv, hconverged⟩ :=
        iterate_passes (p := p) (p.members component) (p.environmentAfter before)
      obtain rfl : pass = pass' := by omega
      have hflag : (p.iterate (p.members component) (p.iterationLimit (p.members component)) 0
          (p.environmentAfter before)).2.2 = true := by
        by_contra hflag
        exact hcap (.inr ⟨hsingle, hsize, by simpa using hflag⟩)
      have hround := round_of_settled (members_nodup hsplit) (hconverged hflag)
      rw [p.solveMembers_cycle hsingle]
      simp only [solveCycle, hflag, Bool.true_or, ↓reduceIte, henv]
      rw [environmentAt_succ, hround]
  · rw [← hmap] at hinside
    rw [environmentAt_frame hinside, solveMembers_frame hinside]

/-- Unless a limit of its component was hit, a member is the transfer of the final facts. -/
theorem final_stable {caller : FunctionSummary} (hcaller : caller ∈ p.members component)
    (hsize : p.oversizedMembers (p.members component) = false)
    (hcap : ¬ p.IterationCapHit (p.members component) (p.environmentAfter before)) :
    p.finalEnvironment[caller.id]? = some (p.transfer p.finalEnvironment caller) := by
  obtain ⟨pass, facts, hfinal, houtcome⟩ := final_outcome hsplit hcaller
  have htransfer := (SameView.refl p caller).transfer
    (lastPass_agrees hsplit hcaller houtcome.last hsize hcap)
  have hreasons : facts.reasons = (p.transfer p.finalEnvironment caller).reasons :=
    Reasons.ext_mem fun text => by rw [houtcome.reasons, htransfer]; simp [hcap]
  rw [hfinal, Option.some.injEq]
  exact Facts.ext (htransfer ▸ houtcome.effects) (htransfer ▸ houtcome.origins) hreasons

end Stable

end Problem

end CppContextEngine.Analysis
