import Mathlib.Data.List.Induction
import CppContextEngine.Analysis.Streaming

/-!
# Environments along a run

A retained run passes through the environments of ever more solved components,
and what it publishes of a summary are the facts that its last environment has.
An invariant of the facts needs to be shown for the local facts and for one
transfer only.
-/

namespace CppContextEngine.Analysis

open CppContextEngine.Foundation CppContextEngine.Models

variable [Fingerprint] (p : Problem)

namespace Problem

/-- The environment after the components of `done`. -/
def environmentAfter (done : List (List String)) : Environment :=
  done.foldl (fun current component => (p.solveMembers (p.members component) current).1)
    p.initialEnvironment

/-- The environment that a retained run ends in. -/
def finalEnvironment : Environment := p.environmentAfter p.components

theorem environmentAfter_append (done : List (List String)) (component : List String) :
    p.environmentAfter (done ++ [component]) =
      (p.solveMembers (p.members component) (p.environmentAfter done)).1 := by
  simp [environmentAfter]

theorem environmentAfter_frame {done rest : List (List String)} {id : String}
    (hrest : ∀ c ∈ rest, c ∈ p.components) (hid : ∀ c ∈ rest, id ∉ c) :
    (p.environmentAfter (done ++ rest))[id]? = (p.environmentAfter done)[id]? := by
  induction rest generalizing done with
  | nil => rw [List.append_nil]
  | cons component rest ih =>
      have hown : id ∉ (p.members component).map FunctionSummary.id := by
        rw [p.map_id_members (hrest component List.mem_cons_self)]
        exact hid component List.mem_cons_self
      rw [List.append_cons, ih (fun c hc => hrest c (List.mem_cons_of_mem _ hc))
        (fun c hc => hid c (List.mem_cons_of_mem _ hc)), environmentAfter_append]
      exact solveMembers_frame hown _

/-- Nothing changes the facts of a component once it is solved. -/
theorem final_eq_after {before after : List (List String)} {component : List String}
    (hsplit : p.components = before ++ component :: after) {id : String}
    (hid : id ∈ component ∨ ∃ c ∈ before, id ∈ c) :
    p.finalEnvironment[id]? = (p.environmentAfter (before ++ [component]))[id]? := by
  have hdisjoint := p.split_disjoint hsplit
  rw [finalEnvironment, hsplit, List.append_cons]
  refine p.environmentAfter_frame (fun c hc => ?_) fun c hc hmem => ?_
  · exact hsplit ▸ List.mem_append_right _ (List.mem_cons_of_mem _ hc)
  · rcases hid with hid | ⟨earlier, hearlier, hid⟩
    · exact hdisjoint.2.1 c hc hid hmem
    · exact hdisjoint.2.2 earlier hearlier c hc hid hmem

/-! ## Invariants of the facts -/

/-- Every entry of the environment satisfies `P`. -/
def Holds (P : String → Facts → Prop) (current : Environment) : Prop :=
  ∀ id facts, current[id]? = some facts → P id facts

/-- `P` holds of the local facts, survives a transfer, and does not mention the reasons. -/
structure Invariant (P : String → Facts → Prop) : Prop where
  initial : ∀ summary ∈ p.summaries, P summary.id
    ⟨p.localEffectsOf summary.id, p.localOriginsOf summary.id, Reasons.ofLocal summary⟩
  transfer : ∀ current, Holds P current → ∀ caller, p.summaryById caller.id = some caller →
    P caller.id (p.transfer current caller)
  reasons : ∀ id facts reasons, P id facts → P id { facts with reasons := reasons }

variable {p} {P : String → Facts → Prop} {current : Environment}

omit [Fingerprint] in
theorem Holds.insert (h : Holds P current) {id : String} {facts : Facts} (hfacts : P id facts) :
    Holds P (current.insert id facts) := by
  intro other facts' hother
  rw [Table.getElem?_insert] at hother
  split at hother
  · cases hother
    subst_vars
    exact hfacts
  · exact h other facts' hother

omit [Fingerprint] in
theorem Holds.foldl_insert {facts : FunctionSummary → Facts} {members : List FunctionSummary}
    (hfacts : ∀ caller ∈ members, P caller.id (facts caller)) :
    ∀ {current : Environment}, Holds P current →
      Holds P (members.foldl (fun next caller => next.insert caller.id (facts caller)) current) := by
  induction members with
  | nil => exact fun h => h
  | cons caller members ih =>
      intro current h
      exact ih (fun other hother => hfacts other (List.mem_cons_of_mem _ hother))
        (h.insert (hfacts caller List.mem_cons_self))

namespace Invariant

theorem holds_initial (h : p.Invariant P) : Holds P p.initialEnvironment :=
  Holds.foldl_insert h.initial fun id facts hfacts => by simp at hfacts

variable {members : List FunctionSummary}

theorem holds_round (h : p.Invariant P)
    (hmembers : ∀ caller ∈ members, p.summaryById caller.id = some caller)
    (hcurrent : Holds P current) : Holds P (p.round members current) :=
  hcurrent.foldl_insert fun caller hcaller =>
    h.transfer current hcurrent caller (hmembers caller hcaller)

theorem holds_iterate (h : p.Invariant P)
    (hmembers : ∀ caller ∈ members, p.summaryById caller.id = some caller) (limit : Nat) :
    ∀ (count : Nat) {current : Environment}, Holds P current →
      Holds P (p.iterate members limit count current).1 := by
  induction limit with
  | zero => exact fun _ _ h => h
  | succ limit ih =>
      intro count current hcurrent
      have hround := h.holds_round hmembers hcurrent
      simp only [Problem.iterate]
      split
      · exact hround
      · exact ih (count + 1) hround

theorem holds_noteIterationCap (h : p.Invariant P) {members : List FunctionSummary} :
    ∀ {current : Environment}, Holds P current →
      Holds P (members.foldl noteIterationCap current) := by
  induction members with
  | nil => exact fun h => h
  | cons caller members ih =>
      intro current hcurrent
      refine ih ?_
      simp only [noteIterationCap]
      split
      · exact hcurrent
      · rename_i facts hfacts
        exact hcurrent.insert (h.reasons _ _ _ (hcurrent _ _ hfacts))

theorem holds_solveMembers (h : p.Invariant P)
    (hmembers : ∀ caller ∈ members, p.summaryById caller.id = some caller)
    (hcurrent : Holds P current) : Holds P (p.solveMembers members current).1 := by
  by_cases hsingle : ∃ caller, members = [caller] ∧ caller.id ∉ p.adjacency caller.id
  · obtain ⟨caller, rfl, hmem⟩ := hsingle
    rw [p.solveMembers_single hmem]
    exact hcurrent.insert (h.reasons _ _ _
      (h.transfer current hcurrent caller (hmembers caller (List.mem_singleton_self caller))))
  · rw [p.solveMembers_cycle hsingle]
    have hnext := h.holds_iterate hmembers (p.iterationLimit members) 0 hcurrent
    simp only [solveCycle]
    split
    · exact hnext
    · exact h.holds_noteIterationCap hnext

/-- An invariant holds after any components. -/
theorem holds_after (h : p.Invariant P) (done : List (List String)) :
    Holds P (p.environmentAfter done) := by
  induction done using List.reverseRecOn with
  | nil => exact h.holds_initial
  | append_singleton done component ih =>
      rw [environmentAfter_append]
      exact h.holds_solveMembers (fun caller hcaller => ((p.mem_members).mp hcaller).2) ih

end Invariant

end Problem

end CppContextEngine.Analysis
