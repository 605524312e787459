import Mathlib.Data.List.Nodup
import Mathlib.Data.List.Forall2

/-!
# Tables of interned values

An interning table holds each value once, under a key that other tables store
in its place.  Keys stay valid while values are added, and a row that refers to
no removed value reads the same afterwards.
-/

namespace CppContextEngine.Foundation

/-- Distinct values under keys of their own. -/
structure Interned (α : Type) where
  rows : List (Nat × α)
  keysNodup : (rows.map Prod.fst).Nodup
  valuesNodup : (rows.map Prod.snd).Nodup

/-- A key above all keys. -/
def nextKey : List Nat → Nat
  | [] => 1
  | key :: keys => max (key + 1) (nextKey keys)

theorem lt_nextKey {key : Nat} {keys : List Nat} (h : key ∈ keys) : key < nextKey keys := by
  induction keys with
  | nil => cases h
  | cons first keys ih =>
      rw [nextKey]
      rcases List.mem_cons.mp h with rfl | h
      · omega
      · have := ih h
        omega

/-- Rows that stand for others are kept and removed with them. -/
theorem forall₂_filter {β γ : Type} {Stands Stands' : β → γ → Prop} {p : β → Bool} {q : γ → Bool}
    (hsame : ∀ b c, Stands b c → p b = q c) (hkept : ∀ b c, Stands b c → p b = true → Stands' b c)
    {rows : List β} {others : List γ} (h : List.Forall₂ Stands rows others) :
    List.Forall₂ Stands' (rows.filter p) (others.filter q) := by
  induction h with
  | nil => exact .nil
  | @cons b c rows others hrow _ ih =>
      rw [List.filter_cons, List.filter_cons, ← hsame b c hrow]
      split
      · rename_i hp
        exact .cons (hkept b c hrow hp) ih
      · exact ih

namespace Interned

variable {α : Type}

def empty : Interned α where
  rows := []
  keysNodup := List.nodup_nil
  valuesNodup := List.nodup_nil

section Lookup

variable [DecidableEq α] (table : Interned α)

/-- The key that a value is joined with. -/
def keyOf (a : α) : Option Nat :=
  (table.rows.find? fun row => row.2 = a).map Prod.fst

/-- An insertion that is ignored when the value is stored. -/
def intern (a : α) : Interned α :=
  if h : a ∈ table.rows.map Prod.snd then table
  else
    { rows := table.rows ++ [(nextKey (table.rows.map Prod.fst), a)]
      keysNodup := by
        rw [List.map_append, List.nodup_append]
        refine ⟨table.keysNodup, by simp, ?_⟩
        intro key hkey other hother heq
        have := lt_nextKey hkey
        rw [List.map_singleton, List.mem_singleton] at hother
        omega
      valuesNodup := by
        rw [List.map_append, List.nodup_append]
        refine ⟨table.valuesNodup, by simp, ?_⟩
        intro b hb other hother heq
        have hsame : other = a := List.mem_singleton.mp hother
        exact h (hsame ▸ heq ▸ hb) }

def internAll (values : List α) : Interned α := values.foldl intern table

end Lookup

variable (table : Interned α)

/-- The value that a key is joined with. -/
def valueOf (key : Nat) : Option α :=
  (table.rows.find? fun row => row.1 = key).map Prod.snd

/-- A deletion of the values that a condition holds of. -/
def delete (removed : α → Bool) : Interned α where
  rows := table.rows.filter fun row => !removed row.2
  keysNodup := (List.filter_sublist.map Prod.fst).nodup table.keysNodup
  valuesNodup := (List.filter_sublist.map Prod.snd).nodup table.valuesNodup

/-- The keys of the values that a condition holds of. -/
def keysOf (selected : α → Bool) : List Nat :=
  (table.rows.filter fun row => selected row.2).map Prod.fst

variable {table}

theorem find_of_nodup {β κ : Type} [DecidableEq κ] {f : β → κ} {rows : List β}
    (hnodup : (rows.map f).Nodup) {row : β} : rows.find? (fun other => f other = f row) = some row ↔
      row ∈ rows := by
  constructor
  · exact List.mem_of_find?_eq_some
  · intro hrow
    have hsome : (rows.find? fun other => f other = f row).isSome = true := by
      rw [List.find?_isSome]
      exact ⟨row, hrow, by simp⟩
    obtain ⟨found, hfound⟩ := Option.isSome_iff_exists.mp hsome
    have hkey : f found = f row := by simpa using List.find?_some hfound
    rw [hfound, List.inj_on_of_nodup_map hnodup (List.mem_of_find?_eq_some hfound) hrow hkey]

theorem valueOf_eq_some {key : Nat} {a : α} :
    table.valueOf key = some a ↔ (key, a) ∈ table.rows := by
  constructor
  · intro h
    obtain ⟨⟨found, value⟩, hfound, hvalue⟩ := Option.map_eq_some_iff.mp h
    cases hvalue
    have hkey : found = key := by simpa using List.find?_some hfound
    exact hkey ▸ List.mem_of_find?_eq_some hfound
  · intro h
    have hfind : table.rows.find? (fun row => row.1 = key) = some (key, a) :=
      (find_of_nodup table.keysNodup).mpr h
    simp [valueOf, hfind]

/-- Keys are equal when their values are. -/
theorem key_eq_iff {key other : Nat} {a b : α} (h : (key, a) ∈ table.rows)
    (hother : (other, b) ∈ table.rows) : key = other ↔ a = b := by
  constructor
  · intro heq
    exact (Prod.mk.inj (List.inj_on_of_nodup_map table.keysNodup h hother heq)).2
  · intro heq
    exact (Prod.mk.inj (List.inj_on_of_nodup_map table.valuesNodup h hother heq)).1

section Lookup

variable [DecidableEq α]

theorem keyOf_eq_some {key : Nat} {a : α} :
    table.keyOf a = some key ↔ (key, a) ∈ table.rows := by
  constructor
  · intro h
    obtain ⟨⟨found, value⟩, hfound, hvalue⟩ := Option.map_eq_some_iff.mp h
    cases hvalue
    have hvalue : value = a := by simpa using List.find?_some hfound
    exact hvalue ▸ List.mem_of_find?_eq_some hfound
  · intro h
    have hfind : table.rows.find? (fun row => row.2 = a) = some (key, a) :=
      (find_of_nodup table.valuesNodup).mpr h
    simp [keyOf, hfind]

theorem subset_intern (a : α) : table.rows ⊆ (table.intern a).rows := by
  unfold intern
  split
  · exact List.Subset.refl _
  · exact List.subset_append_left _ _

theorem exists_mem_intern (a : α) : ∃ key, (key, a) ∈ (table.intern a).rows := by
  unfold intern
  split
  · rename_i h
    obtain ⟨⟨key, value⟩, hrow, rfl⟩ := List.mem_map.mp h
    exact ⟨key, hrow⟩
  · exact ⟨_, List.mem_append_right _ (List.mem_singleton.mpr rfl)⟩

/-- A value of the table after an insertion was there before, or is the inserted one. -/
theorem mem_values_intern {a b : α} {key : Nat} (h : (key, b) ∈ (table.intern a).rows) :
    (key, b) ∈ table.rows ∨ b = a := by
  unfold intern at h
  split at h
  · exact .inl h
  · rcases List.mem_append.mp h with h | h
    · exact .inl h
    · exact .inr (Prod.mk.inj (List.mem_singleton.mp h)).2

theorem subset_internAll (values : List α) : ∀ table : Interned α,
    table.rows ⊆ (table.internAll values).rows := by
  induction values with
  | nil => exact fun table => List.Subset.refl _
  | cons a values ih =>
      exact fun table => List.Subset.trans (subset_intern a) (ih (table.intern a))

theorem exists_mem_internAll {values : List α} {a : α} (ha : a ∈ values) :
    ∀ table : Interned α, ∃ key, (key, a) ∈ (table.internAll values).rows := by
  induction values with
  | nil => cases ha
  | cons first values ih =>
      intro table
      rcases List.mem_cons.mp ha with rfl | ha
      · obtain ⟨key, hkey⟩ := table.exists_mem_intern a
        exact ⟨key, subset_internAll values _ hkey⟩
      · exact ih ha (table.intern first)

theorem mem_values_internAll {values : List α} {b : α} {key : Nat} : ∀ table : Interned α,
    (key, b) ∈ (table.internAll values).rows → (key, b) ∈ table.rows ∨ b ∈ values := by
  induction values with
  | nil => exact fun table h => .inl h
  | cons a values ih =>
      intro table h
      rcases ih (table.intern a) h with h | h
      · rcases mem_values_intern h with h | rfl
        · exact .inl h
        · exact .inr List.mem_cons_self
      · exact .inr (List.mem_cons_of_mem _ h)

end Lookup

theorem mem_delete {removed : α → Bool} {key : Nat} {a : α} :
    (key, a) ∈ (table.delete removed).rows ↔ (key, a) ∈ table.rows ∧ removed a = false := by
  simp [delete]

theorem mem_keysOf {selected : α → Bool} {key : Nat} {a : α} (h : (key, a) ∈ table.rows) :
    key ∈ table.keysOf selected ↔ selected a = true := by
  constructor
  · intro hkey
    obtain ⟨⟨other, value⟩, hrow, rfl⟩ := List.mem_map.mp hkey
    obtain ⟨hrow, hselected⟩ := List.mem_filter.mp hrow
    have hsame := List.inj_on_of_nodup_map table.keysNodup hrow h rfl
    exact (Prod.mk.inj hsame).2 ▸ hselected
  · intro hselected
    exact List.mem_map.mpr ⟨(key, a), List.mem_filter.mpr ⟨h, hselected⟩, rfl⟩

end Interned

end CppContextEngine.Foundation
