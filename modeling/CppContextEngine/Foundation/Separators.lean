import Mathlib.Data.String.Basic

/-!
# Texts joined by a separator

A text is cut at the first separator when the part before it has none, and at
the last one when the part behind it has none.  A decimal number never holds a
colon.  Parts that are each ended by a separator tell their words, the pieces
between the separators, and nothing more.
-/

namespace CppContextEngine.Foundation

section Lists

variable {α : Type} {separator : α} {first first' last last' : List α}

theorem append_cons_inj_of_first (hfirst : separator ∉ first) (hfirst' : separator ∉ first')
    (h : first ++ separator :: last = first' ++ separator :: last') :
    first = first' ∧ last = last' := by
  rcases List.append_eq_append_iff.mp h with ⟨rest, rfl, hrest⟩ | ⟨rest, rfl, hrest⟩ <;>
    cases rest with
    | nil => simp_all
    | cons head rest =>
        obtain ⟨rfl, -⟩ := List.cons_eq_cons.mp hrest
        simp at hfirst hfirst'

theorem append_cons_inj_of_last (hlast : separator ∉ last) (hlast' : separator ∉ last')
    (h : first ++ separator :: last = first' ++ separator :: last') :
    first = first' ∧ last = last' := by
  have hreverse := congrArg List.reverse h
  simp only [List.reverse_append, List.reverse_cons, List.append_assoc, List.singleton_append]
    at hreverse
  obtain ⟨hl, hf⟩ := append_cons_inj_of_first (by simpa using hlast) (by simpa using hlast')
    hreverse
  exact ⟨List.reverse_injective hf, List.reverse_injective hl⟩

end Lists

section Ended

variable {α : Type}

/-- The parts one after the other, each with a separator behind it. -/
def terminated (separator : α) (parts : List (List α)) : List α :=
  parts.flatMap (· ++ [separator])

variable [DecidableEq α] {separator : α} {parts parts' : List (List α)}

/-- The pieces of the parts between their separators. -/
def words (separator : α) (parts : List (List α)) : List (List α) :=
  parts.flatMap (List.splitOn separator)

theorem splitOn_terminated (separator : α) (parts : List (List α)) :
    (terminated separator parts).splitOn separator = words separator parts ++ [[]] := by
  induction parts with
  | nil => simp [terminated, words]
  | cons part parts ih =>
      have hcons : terminated separator (part :: parts) =
          part ++ separator :: terminated separator parts := by
        simp [terminated]
      rw [hcons, List.splitOn_append_cons_self, ih]
      simp [words]

/-- Ended parts are the same text exactly when they have the same words. -/
theorem terminated_inj :
    terminated separator parts = terminated separator parts' ↔
      words separator parts = words separator parts' := by
  constructor
  · intro h
    have hsplit := congrArg (List.splitOn separator) h
    rwa [splitOn_terminated, splitOn_terminated, List.append_left_inj] at hsplit
  · intro h
    have hjoin (parts : List (List α)) : terminated separator parts =
        [separator].intercalate (words separator parts ++ [[]]) := by
      rw [← splitOn_terminated, List.intercalate_splitOn]
    rw [hjoin, hjoin, h]

theorem words_of_notMem (h : ∀ part ∈ parts, separator ∉ part) :
    words separator parts = parts := by
  induction parts with
  | nil => rfl
  | cons part parts ih =>
      rw [words, List.flatMap_cons, List.splitOn_eq_singleton (h part List.mem_cons_self)]
      have hrest := ih fun other hother => h other (List.mem_cons_of_mem _ hother)
      rw [words] at hrest
      rw [hrest, List.singleton_append]

theorem words_append : words separator (parts ++ parts') =
    words separator parts ++ words separator parts' :=
  List.flatMap_append

end Ended

section Texts

variable {first first' last last' : String}

/-- The first colon ends a word without colons. -/
theorem append_colon_inj_of_first (hfirst : ':' ∉ first.toList) (hfirst' : ':' ∉ first'.toList)
    (h : first ++ ":" ++ last = first' ++ ":" ++ last') : first = first' ∧ last = last' := by
  have hlists := congrArg String.toList h
  simp only [String.toList_append, List.append_assoc] at hlists
  obtain ⟨hf, hl⟩ := append_cons_inj_of_first hfirst hfirst' hlists
  exact ⟨String.toList_injective hf, String.toList_injective hl⟩

theorem append_colon_inj_of_last (hlast : ':' ∉ last.toList) (hlast' : ':' ∉ last'.toList)
    (h : first ++ ":" ++ last = first' ++ ":" ++ last') : first = first' ∧ last = last' := by
  have hlists := congrArg String.toList h
  simp only [String.toList_append, List.append_assoc] at hlists
  obtain ⟨hf, hl⟩ := append_cons_inj_of_last hlast hlast' hlists
  exact ⟨String.toList_injective hf, String.toList_injective hl⟩

theorem colon_notMem_toString (n : Nat) : ':' ∉ (toString n).toList := by
  rw [Nat.toString_eq_repr, Nat.toList_repr]
  intro h
  simpa using Nat.isDigit_of_mem_toDigits (by decide) (by decide) h

theorem toString_nat_injective : Function.Injective (toString : Nat → String) := by
  intro m n h
  rw [Nat.toString_eq_repr, Nat.toString_eq_repr, ← String.toList_inj, Nat.toList_repr,
    Nat.toList_repr] at h
  rw [← Nat.ofDigitChars_toDigits (b := 10) (n := m) (by decide) (by decide), h,
    Nat.ofDigitChars_toDigits (by decide) (by decide)]

/-- A number behind the last colon and what stands before it. -/
theorem append_colon_nat_inj {m n : Nat} :
    first ++ ":" ++ toString m = first' ++ ":" ++ toString n ↔ first = first' ∧ m = n := by
  constructor
  · intro h
    obtain ⟨hfirst, hlast⟩ :=
      append_colon_inj_of_last (colon_notMem_toString m) (colon_notMem_toString n) h
    exact ⟨hfirst, toString_nat_injective hlast⟩
  · rintro ⟨rfl, rfl⟩
    rfl

/-- A number behind a word that ends in a colon. -/
theorem append_word_nat_inj (word : String) {m n : Nat} :
    first ++ (word ++ ":") ++ toString m = first' ++ (word ++ ":") ++ toString n ↔
      first = first' ∧ m = n := by
  rw [← String.append_assoc, ← String.append_assoc, append_colon_nat_inj, String.append_left_inj]

end Texts

end CppContextEngine.Foundation
