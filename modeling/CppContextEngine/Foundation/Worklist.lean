import Mathlib.Data.List.Dedup
import Mathlib.Data.List.Perm.Subperm
import Mathlib.Algebra.BigOperators.Group.List.Basic
import Mathlib.Algebra.GroupWithZero.Nat
import Mathlib.Data.List.Nodup
import Mathlib.Logic.Relation

/-!
# Worklists

Three loops that collect everything reachable from where they start: one skips
what it has visited when it takes it, one lets nothing in twice, and one goes
level by level.  All keep the same invariant, and all end on a finite graph.
-/

namespace CppContextEngine.Foundation

section Loops

variable {α : Type} [DecidableEq α] (next : α → List α)

/-- Take the first pending item, unless it was visited, and add what follows it. -/
def traverse : Nat → List α → List α → Option (List α)
  | _, [], visited => some visited
  | 0, _ :: _, _ => none
  | fuel + 1, item :: pending, visited =>
      if item ∈ visited then traverse fuel pending visited
      else traverse fuel (pending ++ next item) (visited ++ [item])

def enqueue (table queue rows : List α) : List α :=
  rows.foldl (fun queue row => if row ∈ table ∨ row ∈ queue then queue else queue ++ [row]) queue

/-- `WITH RECURSIVE … UNION`: no row enters the queue that is or was in it. -/
def recursiveUnion : Nat → List α → List α → Option (List α)
  | _, [], table => some table
  | 0, _ :: _, _ => none
  | fuel + 1, row :: queue, table =>
      recursiveUnion fuel (enqueue (table ++ [row]) queue (next row)) (table ++ [row])

/-- Everything that the frontier leads to and the closure lacks is the next frontier. -/
def levels : Nat → List α → List α → Option (List α)
  | _, closure, [] => some closure
  | 0, _, _ :: _ => none
  | fuel + 1, closure, item :: frontier =>
      let found := ((item :: frontier).flatMap next).dedup.filter (· ∉ closure)
      levels fuel (closure ++ found) found

end Loops

/-! ## The invariant -/

section Invariant

variable {α : Type} (next : α → List α)

/-- `item` is reachable from an item of `start`. -/
def Leads (start : List α) (item : α) : Prop :=
  ∃ first ∈ start, Relation.ReflTransGen (fun a b => b ∈ next a) first item

/-- Everything reachable is done or follows something pending, and nothing else is done. -/
structure Progress (start pending finished : List α) : Prop where
  nodup : finished.Nodup
  covers : ∀ item ∈ start, item ∈ finished ∨ item ∈ pending
  closed : ∀ item ∈ finished, ∀ other ∈ next item, other ∈ finished ∨ other ∈ pending
  sound : ∀ item, item ∈ finished ∨ item ∈ pending → Leads next start item

variable {next} {start pending finished : List α} {item : α}

theorem Progress.initial (hpending : ∀ item, item ∈ pending ↔ item ∈ start) :
    Progress next start pending [] := by
  refine ⟨List.nodup_nil, fun item hitem => .inr ((hpending item).mpr hitem), by simp, ?_⟩
  rintro item (hitem | hitem)
  · cases hitem
  · exact ⟨item, (hpending item).mp hitem, .refl⟩

theorem Progress.skip (h : Progress next start (item :: pending) finished)
    (hitem : item ∈ finished) : Progress next start pending finished := by
  have hrest (other : α) (hother : other ∈ finished ∨ other ∈ item :: pending) :
      other ∈ finished ∨ other ∈ pending := by
    rcases hother with hother | hother
    · exact .inl hother
    · rcases List.mem_cons.mp hother with rfl | hother
      · exact .inl hitem
      · exact .inr hother
  exact ⟨h.nodup, fun other hother => hrest other (h.covers other hother),
    fun other hother next hnext => hrest next (h.closed other hother next hnext),
    fun other hother => h.sound other (hother.imp_right (List.mem_cons_of_mem _))⟩

/-- An item is done when it is taken; what follows it is pending or done. -/
theorem Progress.visit {pending' : List α} (h : Progress next start (item :: pending) finished)
    (hitem : item ∉ finished) (hpending : ∀ other, other ∈ finished ++ [item] ∨ other ∈ pending' ↔
      other ∈ finished ++ [item] ∨ other ∈ pending ∨ other ∈ next item) :
    Progress next start pending' (finished ++ [item]) := by
  have hkeep (other : α) (hother : other ∈ finished ∨ other ∈ item :: pending) :
      other ∈ finished ++ [item] ∨ other ∈ pending' := by
    rw [hpending]
    rcases hother with hother | hother
    · exact .inl (List.mem_append_left _ hother)
    · rcases List.mem_cons.mp hother with rfl | hother
      · exact .inl (by simp)
      · exact .inr (.inl hother)
  refine ⟨?_, fun other hother => hkeep other (h.covers other hother), ?_, ?_⟩
  · rw [List.nodup_append]
    refine ⟨h.nodup, List.nodup_singleton _, fun other hother taken htaken => ?_⟩
    rw [List.mem_singleton.mp htaken]
    rintro rfl
    exact hitem hother
  · intro other hother follower hfollower
    rcases List.mem_append.mp hother with hother | hother
    · exact hkeep follower (h.closed other hother follower hfollower)
    · rw [List.mem_singleton.mp hother] at hfollower
      exact (hpending follower).mpr (.inr (.inr hfollower))
  · intro other hother
    rcases (hpending other).mp hother with hother | hother | hother
    · rcases List.mem_append.mp hother with hother | hother
      · exact h.sound other (.inl hother)
      · rw [List.mem_singleton.mp hother]
        exact h.sound item (.inr List.mem_cons_self)
    · exact h.sound other (.inr (List.mem_cons_of_mem _ hother))
    · obtain ⟨first, hfirst, hpath⟩ := h.sound item (.inr List.mem_cons_self)
      exact ⟨first, hfirst, hpath.tail hother⟩

/-- With nothing pending, another item may start. -/
theorem Progress.restart (h : Progress next start [] finished) (item : α) :
    Progress next (start ++ [item]) [item] finished where
  nodup := h.nodup
  covers other hother := by
    rcases List.mem_append.mp hother with hother | hother
    · exact .inl ((h.covers other hother).resolve_right List.not_mem_nil)
    · exact .inr hother
  closed other hother follower hfollower :=
    .inl ((h.closed other hother follower hfollower).resolve_right List.not_mem_nil)
  sound other hother := by
    rcases hother with hother | hother
    · obtain ⟨first, hfirst, hpath⟩ := h.sound other (.inl hother)
      exact ⟨first, List.mem_append_left _ hfirst, hpath⟩
    · exact ⟨other, List.mem_append_right _ hother, .refl⟩

/-- A whole level is done at once. -/
theorem Progress.visitLevel {found : List α} (h : Progress next start pending finished)
    (hnodup : (finished ++ pending).Nodup)
    (hfound : ∀ other, other ∈ finished ++ pending ∨ other ∈ found ↔
      other ∈ finished ++ pending ∨ ∃ item ∈ pending, other ∈ next item) :
    Progress next start found (finished ++ pending) where
  nodup := hnodup
  covers item hitem := .inl (List.mem_append.mpr (h.covers item hitem))
  closed item hitem other hother := by
    rw [hfound]
    rcases List.mem_append.mp hitem with hitem | hitem
    · exact .inl (List.mem_append.mpr (h.closed item hitem other hother))
    · exact .inr ⟨item, hitem, hother⟩
  sound item hitem := by
    rcases (hfound item).mp hitem with hitem | ⟨before, hbefore, hnext⟩
    · exact h.sound item (List.mem_append.mp hitem)
    · obtain ⟨first, hfirst, hpath⟩ := h.sound before (.inr hbefore)
      exact ⟨first, hfirst, hpath.tail hnext⟩

/-- With nothing pending, what is done is what is reachable. -/
theorem Progress.mem_iff (h : Progress next start [] finished) :
    item ∈ finished ↔ Leads next start item := by
  constructor
  · exact fun hitem => h.sound item (.inl hitem)
  · rintro ⟨first, hfirst, hpath⟩
    induction hpath with
    | refl => simpa using h.covers first hfirst
    | tail _ hnext ih => simpa using h.closed _ ih _ hnext

end Invariant

/-! ## The loops end, and with everything reachable -/

section Runs

variable {α : Type} [DecidableEq α] {next : α → List α} {start : List α} {item : α}

theorem traverse_progress {fuel : Nat} : ∀ {pending finished result : List α},
    traverse next fuel pending finished = some result → Progress next start pending finished →
      Progress next start [] result := by
  induction fuel with
  | zero =>
      rintro (_ | ⟨item, pending⟩) finished result hresult h
      · cases hresult
        exact h
      · cases hresult
  | succ fuel ih =>
      rintro (_ | ⟨item, pending⟩) finished result hresult h
      · cases hresult
        exact h
      · unfold traverse at hresult
        split at hresult
        · rename_i hitem
          exact ih hresult (h.skip hitem)
        · rename_i hitem
          exact ih hresult (h.visit hitem fun other => or_congr_right List.mem_append)

/-- The steps that a traversal has before it: pending items, and those of unvisited items. -/
def stepsLeft (next : α → List α) (all pending visited : List α) : Nat :=
  pending.length + ((all.filter (· ∉ visited)).map fun item => (next item).length).sum

/-- The steps of an item move from the unvisited items to the pending ones. -/
theorem stepsLeft_visit {all pending visited : List α} (hall : all.Nodup) {item : α}
    (hitem : item ∈ all) (hvisited : item ∉ visited) :
    stepsLeft next all (pending ++ next item) (visited ++ [item]) + 1 =
      stepsLeft next all (item :: pending) visited := by
  have hmem : item ∈ all.filter (· ∉ visited) := by simp [hitem, hvisited]
  have herase : all.filter (· ∉ visited ++ [item]) = (all.filter (· ∉ visited)).erase item := by
    rw [(hall.filter _).erase_eq_filter, List.filter_filter]
    refine List.filter_congr fun other _ => ?_
    by_cases hother : other = item <;> simp [hother]
  have hsum := List.sum_map_erase (fun item => (next item).length) hmem
  unfold stepsLeft
  rw [herase, List.length_append]
  simp only [List.length_cons]
  omega

/-- Inside a finite set of items a traversal ends. -/
theorem traverse_isSome {all : List α} (hall : all.Nodup)
    (hnext : ∀ item, ∀ other ∈ next item, other ∈ all) (fuel : Nat) :
    ∀ {pending visited : List α}, (∀ item ∈ pending, item ∈ all) →
      stepsLeft next all pending visited ≤ fuel →
        ∃ result, traverse next fuel pending visited = some result := by
  induction fuel with
  | zero =>
      rintro (_ | ⟨item, pending⟩) visited hpending hfuel
      · exact ⟨visited, rfl⟩
      · simp [stepsLeft] at hfuel
  | succ fuel ih =>
      rintro (_ | ⟨item, pending⟩) visited hpending hfuel
      · exact ⟨visited, rfl⟩
      obtain ⟨hitem, hothers⟩ := List.forall_mem_cons.mp hpending
      unfold traverse
      by_cases hvisited : item ∈ visited
      · rw [if_pos hvisited]
        apply ih hothers
        unfold stepsLeft at hfuel ⊢
        simp only [List.length_cons] at hfuel
        omega
      · rw [if_neg hvisited]
        apply ih
        · intro other hother
          rcases List.mem_append.mp hother with hother | hother
          · exact hothers other hother
          · exact hnext item other hother
        · have := @stepsLeft_visit α _ next all pending visited hall item hitem hvisited
          omega

theorem mem_enqueue {table rows : List α} : ∀ {queue : List α},
    item ∈ table ∨ item ∈ enqueue table queue rows ↔
      item ∈ table ∨ item ∈ queue ∨ item ∈ rows := by
  unfold enqueue
  induction rows with
  | nil => simp
  | cons row rows ih =>
      intro queue
      rw [List.foldl_cons, ih]
      split
      · rename_i hrow
        constructor
        · rintro (h | h | h)
          · exact .inl h
          · exact .inr (.inl h)
          · exact .inr (.inr (List.mem_cons_of_mem _ h))
        · rintro (h | h | h)
          · exact .inl h
          · exact .inr (.inl h)
          · rcases List.mem_cons.mp h with rfl | h
            · exact hrow.imp_right .inl
            · exact .inr (.inr h)
      · rw [List.mem_append, List.mem_singleton, List.mem_cons, or_assoc]

theorem nodup_enqueue {table rows : List α} : ∀ {queue : List α}, (table ++ queue).Nodup →
    (table ++ enqueue table queue rows).Nodup := by
  unfold enqueue
  induction rows with
  | nil => exact fun h => h
  | cons row rows ih =>
      intro queue h
      rw [List.foldl_cons]
      split
      · exact ih h
      · rename_i hrow
        apply ih
        rw [← List.append_assoc, List.nodup_append]
        refine ⟨h, List.nodup_singleton _, fun other hother taken htaken => ?_⟩
        rw [List.mem_singleton.mp htaken]
        rintro rfl
        exact hrow (List.mem_append.mp hother)

theorem recursiveUnion_progress {fuel : Nat} : ∀ {queue table result : List α},
    recursiveUnion next fuel queue table = some result → (table ++ queue).Nodup →
      Progress next start queue table → Progress next start [] result := by
  induction fuel with
  | zero =>
      rintro (_ | ⟨row, queue⟩) table result hresult hnodup h
      · cases hresult
        exact h
      · cases hresult
  | succ fuel ih =>
      rintro (_ | ⟨row, queue⟩) table result hresult hnodup h
      · cases hresult
        exact h
      · have hrow : row ∉ table := by
          intro hrow
          exact (List.nodup_append.mp hnodup).2.2 row hrow row List.mem_cons_self rfl
        have hsplit : table ++ row :: queue = table ++ [row] ++ queue := by simp
        rw [hsplit] at hnodup
        exact ih hresult (nodup_enqueue hnodup) (h.visit hrow fun other => mem_enqueue)

/-- Inside a finite set of rows a recursive query ends. -/
theorem recursiveUnion_isSome {all : List α} (hnext : ∀ item ∈ all, ∀ other ∈ next item, other ∈ all)
    (fuel : Nat) : ∀ {queue table : List α}, (table ++ queue).Nodup → table ++ queue ⊆ all →
      all.length ≤ fuel + table.length →
        ∃ result, recursiveUnion next fuel queue table = some result := by
  induction fuel with
  | zero =>
      rintro (_ | ⟨row, queue⟩) table hnodup hall hfuel
      · exact ⟨table, rfl⟩
      · have hle := (List.subperm_of_subset hnodup hall).length_le
        simp only [List.length_append, List.length_cons] at hle
        omega
  | succ fuel ih =>
      rintro (_ | ⟨row, queue⟩) table hnodup hall hfuel
      · exact ⟨table, rfl⟩
      · have hsplit : table ++ row :: queue = table ++ [row] ++ queue := by simp
        rw [hsplit] at hnodup hall
        unfold recursiveUnion
        apply ih (nodup_enqueue hnodup)
        · intro other hother
          rcases mem_enqueue.mp (List.mem_append.mp hother) with h | h | h
          · exact hall (List.mem_append_left _ h)
          · exact hall (List.mem_append_right _ h)
          · exact hnext row (hall (by simp)) other h
        · simp only [List.length_append, List.length_singleton]
          omega

/-- The next frontier is new, and the closure grows by it. -/
theorem nodup_append_found {closure found : List α} (hclosure : closure.Nodup) :
    (closure ++ found.dedup.filter (· ∉ closure)).Nodup := by
  refine List.nodup_append.mpr ⟨hclosure, (List.nodup_dedup found).filter _, ?_⟩
  rintro item hitem other hother rfl
  simp [hitem] at hother

theorem levels_progress {fuel : Nat} : ∀ {finished pending result : List α},
    levels next fuel (finished ++ pending) pending = some result →
      (finished ++ pending).Nodup → Progress next start pending finished →
        Progress next start [] result := by
  induction fuel with
  | zero =>
      rintro finished (_ | ⟨item, pending⟩) result hresult hnodup h
      · simp only [levels, List.append_nil, Option.some.injEq] at hresult
        exact hresult ▸ h
      · cases hresult
  | succ fuel ih =>
      rintro finished (_ | ⟨item, pending⟩) result hresult hnodup h
      · simp only [levels, List.append_nil, Option.some.injEq] at hresult
        exact hresult ▸ h
      · unfold levels at hresult
        apply ih hresult (nodup_append_found hnodup)
        apply h.visitLevel hnodup
        intro other
        simp only [List.mem_filter, List.mem_dedup, List.mem_flatMap, decide_eq_true_eq]
        tauto

/-- The closure of a start set holds just what is reachable from it. -/
theorem mem_levels_iff {fuel : Nat} {result : List α}
    (hresult : levels next fuel start.dedup start.dedup = some result) :
    item ∈ result ↔ Leads next start item := by
  have hinitial : Progress next start start.dedup [] :=
    Progress.initial fun other => List.mem_dedup
  exact (levels_progress hresult (List.nodup_dedup start) hinitial).mem_iff

/-- Inside a finite set the levels end. -/
theorem levels_isSome {all : List α} (hnext : ∀ item, ∀ other ∈ next item, other ∈ all)
    (fuel : Nat) : ∀ {closure frontier : List α}, closure.Nodup → closure ⊆ all →
      all.length < closure.length + fuel →
        ∃ result, levels next fuel closure frontier = some result := by
  induction fuel with
  | zero =>
      rintro closure frontier hnodup hall hfuel
      have hle := (List.subperm_of_subset hnodup hall).length_le
      omega
  | succ fuel ih =>
      rintro closure (_ | ⟨item, frontier⟩) hnodup hall hfuel
      · exact ⟨closure, rfl⟩
      unfold levels
      cases hfound : ((item :: frontier).flatMap next).dedup.filter (· ∉ closure) with
      | nil =>
          refine ⟨closure ++ [], ?_⟩
          cases fuel <;> rfl
      | cons other found =>
          rw [← hfound]
          apply ih (nodup_append_found hnodup)
          · intro other hother
            rcases List.mem_append.mp hother with hother | hother
            · exact hall hother
            · simp only [List.mem_filter, List.mem_dedup, List.mem_flatMap] at hother
              obtain ⟨⟨before, -, hnext'⟩, -⟩ := hother
              exact hnext before other hnext'
          · rw [hfound, List.length_append, List.length_cons]
            omega

end Runs

end CppContextEngine.Foundation
