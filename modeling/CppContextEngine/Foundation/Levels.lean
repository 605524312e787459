import Mathlib.Data.List.Basic
import Mathlib.Order.Nat

/-!
# Levels of a breadth-first search

The bookkeeping of a search that works off a queue: which nodes it has reached
and at which level, and which of them still wait.  Once nothing waits and every
node has handed on its hops, the search has reached what lies within its limit.
-/

namespace CppContextEngine.Foundation

section Levels

variable {ν : Type} (hop : ν → ν → Prop)

/-- The routes of a length from a root. -/
inductive Hops (root : ν) : Nat → ν → Prop where
  | here : Hops root 0 root
  | hop {length : Nat} {node next : ν} (route : Hops root length node) (step : hop node next) :
      Hops root (length + 1) next

theorem Hops.mono {hop hop' : ν → ν → Prop} (h : ∀ node next, hop node next → hop' node next)
    {root node : ν} {length : Nat} (route : Hops hop root length node) :
    Hops hop' root length node := by
  induction route with
  | here => exact .here
  | hop _ step ih => exact .hop ih (h _ _ step)

/-- A node lies within `limit` hops of a root. -/
def Within (roots : List ν) (limit : Nat) (node : ν) : Prop :=
  ∃ root ∈ roots, ∃ length ≤ limit, Hops hop root length node

/-- What holds of the nodes reached and of those that wait, each with its level. -/
structure Levels (roots : List ν) (limit : Nat) (reached waiting : List (ν × Nat)) : Prop where
  rooted : ∀ root ∈ roots, (root, 0) ∈ reached
  routes : ∀ entry ∈ reached, entry.2 ≤ limit ∧ ∃ root ∈ roots, Hops hop root entry.2 entry.1
  waits : ∀ entry ∈ waiting, entry ∈ reached
  sorted : waiting.Pairwise fun entry other => entry.2 ≤ other.2
  span : ∀ entry ∈ reached, ∀ other ∈ waiting, entry.2 ≤ other.2 + 1

/-- Everything one hop from the entry is reached, at the next level or before. -/
def HandedOn (limit : Nat) (reached : List (ν × Nat)) (entry : ν × Nat) : Prop :=
  entry.2 < limit → ∀ next, hop entry.1 next → ∃ found ∈ reached,
    found.1 = next ∧ found.2 ≤ entry.2 + 1

variable {hop} {roots : List ν} {limit : Nat} {reached waiting : List (ν × Nat)}
  {entry : ν × Nat}

theorem Levels.start (roots : List ν) (limit : Nat) :
    Levels hop roots limit (roots.map fun root => (root, 0)) (roots.map fun root => (root, 0)) where
  rooted root hroot := List.mem_map_of_mem hroot
  routes := by
    intro entry hentry
    obtain ⟨root, hroot, rfl⟩ := List.mem_map.mp hentry
    exact ⟨Nat.zero_le _, root, hroot, .here⟩
  waits _ := id
  sorted := List.pairwise_map.mpr (List.pairwise_of_forall fun _ _ => le_rfl)
  span := by
    intro entry hentry other _
    obtain ⟨root, -, rfl⟩ := List.mem_map.mp hentry
    exact Nat.zero_le _

theorem Levels.pop (h : Levels hop roots limit reached (entry :: waiting)) :
    Levels hop roots limit reached waiting :=
  { h with
    waits := fun other hother => h.waits other (List.mem_cons_of_mem _ hother)
    sorted := (List.pairwise_cons.mp h.sorted).2
    span := fun other hother last hlast => h.span other hother last (List.mem_cons_of_mem _ hlast) }

/-- The first one that waits reaches a node at the next level. -/
theorem Levels.push (h : Levels hop roots limit reached (entry :: waiting)) {next : ν}
    (hlimit : entry.2 < limit) (hhop : hop entry.1 next) :
    Levels hop roots limit (reached ++ [(next, entry.2 + 1)])
      (entry :: (waiting ++ [(next, entry.2 + 1)])) := by
  have hentry : entry ∈ reached := h.waits entry List.mem_cons_self
  have hfirst : ∀ other ∈ entry :: waiting, entry.2 ≤ other.2 := by
    intro other hother
    rcases List.mem_cons.mp hother with rfl | hother
    · exact le_rfl
    · exact (List.pairwise_cons.mp h.sorted).1 other hother
  have hmem {other : ν × Nat} : other ∈ entry :: (waiting ++ [(next, entry.2 + 1)]) ↔
      other ∈ entry :: waiting ∨ other = (next, entry.2 + 1) := by
    simp [or_assoc]
  refine ⟨?_, ?_, ?_, ?_, ?_⟩
  · exact fun root hroot => List.mem_append_left _ (h.rooted root hroot)
  · intro other hother
    rcases List.mem_append.mp hother with hother | hother
    · exact h.routes other hother
    · obtain ⟨-, root, hroot, route⟩ := h.routes entry hentry
      rw [List.mem_singleton.mp hother]
      exact ⟨hlimit, root, hroot, route.hop hhop⟩
  · intro other hother
    rcases hmem.mp hother with hother | rfl
    · exact List.mem_append_left _ (h.waits other hother)
    · simp
  · rw [← List.cons_append, List.pairwise_append]
    refine ⟨h.sorted, List.pairwise_singleton _ _, ?_⟩
    intro other hother last hlast
    rw [List.mem_singleton.mp hlast]
    exact h.span other (h.waits other hother) entry List.mem_cons_self
  · intro other hother last hlast
    have hbound : other.2 ≤ entry.2 + 1 := by
      rcases List.mem_append.mp hother with hother | hother
      · exact h.span other hother entry List.mem_cons_self
      · exact (congrArg Prod.snd (List.mem_singleton.mp hother)).le
    rcases hmem.mp hlast with hlast | rfl
    · have := hfirst last hlast
      omega
    · show other.2 ≤ entry.2 + 1 + 1
      omega

theorem HandedOn.append (h : HandedOn hop limit reached entry) (more : List (ν × Nat)) :
    HandedOn hop limit (reached ++ more) entry := by
  intro hlimit next hhop
  obtain ⟨found, hfound, hnext⟩ := h hlimit next hhop
  exact ⟨found, List.mem_append_left _ hfound, hnext⟩

/-- The one being worked on has handed on its hops when their nodes are reached at all. -/
theorem Levels.handedOn (h : Levels hop roots limit reached (entry :: waiting))
    (hreached : ∀ next, hop entry.1 next → ∃ found ∈ reached, found.1 = next) :
    HandedOn hop limit reached entry := by
  intro _ next hhop
  obtain ⟨found, hfound, hnext⟩ := hreached next hhop
  exact ⟨found, hfound, hnext, h.span found hfound entry List.mem_cons_self⟩

/-- A search that is done has reached exactly what lies within its limit. -/
theorem Levels.within_iff (h : Levels hop roots limit reached [])
    (hdone : ∀ entry ∈ reached, HandedOn hop limit reached entry) {node : ν} :
    (∃ entry ∈ reached, entry.1 = node) ↔ Within hop roots limit node := by
  constructor
  · rintro ⟨entry, hentry, rfl⟩
    obtain ⟨hlevel, root, hroot, route⟩ := h.routes entry hentry
    exact ⟨root, hroot, entry.2, hlevel, route⟩
  · rintro ⟨root, hroot, length, hlength, route⟩
    have hreached : ∃ entry ∈ reached, entry.1 = node ∧ entry.2 ≤ length := by
      induction route with
      | here => exact ⟨(root, 0), h.rooted root hroot, rfl, le_rfl⟩
      | hop _ step ih =>
          obtain ⟨entry, hentry, rfl, hlevel⟩ := ih (by omega)
          obtain ⟨found, hfound, hnext, hbound⟩ := hdone entry hentry (by omega) _ step
          exact ⟨found, hfound, hnext, by omega⟩
    obtain ⟨entry, hentry, hnode, -⟩ := hreached
    exact ⟨entry, hentry, hnode⟩

end Levels

end CppContextEngine.Foundation
