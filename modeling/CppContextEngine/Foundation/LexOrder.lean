import Mathlib.Data.List.Lex
import Mathlib.Order.Lattice
import Mathlib.Order.Monotone.Basic

/-!
# Lexicographic orders

An encoding whose words differ as their letters do keeps the order of texts.  A
separator below every letter makes the order of joined names the order of the
names.  Two orders of one alphabet disagree on texts only at their first
difference.
-/

namespace CppContextEngine.Foundation

variable {α β : Type}

/-! ## Encodings -/

section Encodings

variable [LinearOrder α] [LinearOrder β]

/-- The first difference of two texts puts the first of them first. -/
def FirstLess (s t : List β) : Prop :=
  ∃ (front : List β) (x y : β) (rest rest' : List β),
    s = front ++ x :: rest ∧ t = front ++ y :: rest' ∧ x < y

theorem firstLess_of_lt {x y : β} (h : x < y) (rest rest' : List β) :
    FirstLess (x :: rest) (y :: rest') :=
  ⟨[], x, y, rest, rest', rfl, rfl, h⟩

theorem firstLess_of_le {x y : β} {s t : List β} (hle : x ≤ y) (h : x = y → FirstLess s t) :
    FirstLess (x :: s) (y :: t) := by
  rcases lt_or_eq_of_le hle with hlt | rfl
  · exact firstLess_of_lt hlt s t
  · obtain ⟨front, a, b, rest, rest', rfl, rfl, hab⟩ := h rfl
    exact ⟨x :: front, a, b, rest, rest', rfl, rfl, hab⟩

/-- The words of two letters first differ as the letters do. -/
def OrderedCode (code : α → List β) : Prop := ∀ a b, a < b → FirstLess (code a) (code b)

variable {code : α → List β}

theorem append_lt_of_lt {front : List β} {x y : β} {rest rest' : List β} (h : x < y) :
    front ++ x :: rest < front ++ y :: rest' := by
  induction front with
  | nil => exact List.cons_lt_cons_iff.mpr (.inl h)
  | cons b front ih => exact List.cons_lt_cons_iff.mpr (.inr ⟨rfl, ih⟩)

theorem append_lt_append_left (front : List β) {s t : List β} (h : s < t) :
    front ++ s < front ++ t := by
  induction front with
  | nil => exact h
  | cons b front ih => exact List.cons_lt_cons_iff.mpr (.inr ⟨rfl, ih⟩)

/-- A beginning of a text comes before it. -/
theorem le_of_prefix {s t : List β} (h : s <+: t) : s ≤ t := not_lt.mp h.le

theorem flatMap_strictMono (hcode : OrderedCode code) (hne : ∀ a, code a ≠ []) :
    StrictMono fun text : List α => text.flatMap code := by
  intro s t h
  simp only
  induction s generalizing t with
  | nil =>
      cases t with
      | nil => exact absurd h (lt_irrefl _)
      | cons b t =>
          obtain ⟨head, rest, hword⟩ := List.exists_cons_of_ne_nil (hne b)
          simp [hword]
  | cons a s ih =>
      cases t with
      | nil => exact absurd h (List.not_lt_nil _)
      | cons b t =>
          rw [List.flatMap_cons, List.flatMap_cons]
          rcases List.cons_lt_cons_iff.mp h with hlt | ⟨rfl, hlt⟩
          · obtain ⟨front, x, y, rest, rest', ha, hb, hxy⟩ := hcode a b hlt
            rw [ha, hb, List.append_assoc, List.append_assoc]
            exact append_lt_of_lt hxy
          · exact append_lt_append_left _ (ih hlt)

theorem map_strictMono {f : α → β} (hf : StrictMono f) : StrictMono (List.map f) :=
  fun _ _ h => List.map_lt (fun _ _ hlt => hf hlt) h

end Encodings

/-! ## Separators -/

section Separators

variable [LinearOrder α] {separator : α}

/-- The names, each with the separator before it. -/
def joined (separator : α) (names : List (List α)) : List α := names.flatMap (separator :: ·)

/-- The letters of the names are above the separator. -/
def Above (separator : α) (names : List (List α)) : Prop := ∀ name ∈ names, ∀ a ∈ name, separator < a

/-- What may follow a name: nothing, or the next separator. -/
def EndsName (separator : α) (rest : List α) : Prop := ∀ a ∈ rest.head?, a = separator

omit [LinearOrder α] in
theorem endsName_joined (names : List (List α)) : EndsName separator (joined separator names) := by
  cases names <;> simp [EndsName, joined]

theorem append_lt_iff {name name' rest rest' : List α} (hname : ∀ a ∈ name, separator < a)
    (hname' : ∀ a ∈ name', separator < a) (hrest : EndsName separator rest)
    (hrest' : EndsName separator rest') :
    name ++ rest < name' ++ rest' ↔ name < name' ∨ name = name' ∧ rest < rest' := by
  induction name generalizing name' with
  | nil =>
      cases name' with
      | nil => simp
      | cons b name' =>
          have hb := hname' b List.mem_cons_self
          cases rest with
          | nil => simp
          | cons a rest =>
              obtain rfl : a = separator := hrest a rfl
              simp [List.cons_lt_cons_iff, hb]
  | cons a name ih =>
      have ha := hname a List.mem_cons_self
      cases name' with
      | nil =>
          cases rest' with
          | nil => simp
          | cons b rest' =>
              obtain rfl : b = separator := hrest' b rfl
              simp [List.cons_lt_cons_iff, ha.ne', not_lt_of_gt ha]
      | cons b name' =>
          rw [List.cons_append, List.cons_append, List.cons_lt_cons_iff, List.cons_lt_cons_iff,
            ih (fun c hc => hname c (List.mem_cons_of_mem _ hc))
              (fun c hc => hname' c (List.mem_cons_of_mem _ hc))]
          simp only [List.cons.injEq]
          tauto

theorem joined_lt_iff {names names' : List (List α)} (habove : Above separator names)
    (habove' : Above separator names') :
    joined separator names < joined separator names' ↔ names < names' := by
  induction names generalizing names' with
  | nil => cases names' <;> simp [joined]
  | cons name names ih =>
      cases names' with
      | nil => simp [joined]
      | cons name' names' =>
          have hrest : Above separator names :=
            fun other hother => habove other (List.mem_cons_of_mem _ hother)
          have hrest' : Above separator names' :=
            fun other hother => habove' other (List.mem_cons_of_mem _ hother)
          have hcons (name : List α) (names : List (List α)) :
              joined separator (name :: names) = separator :: (name ++ joined separator names) :=
            rfl
          rw [hcons, hcons, List.cons_lt_cons_self,
            append_lt_iff (habove name List.mem_cons_self) (habove' name' List.mem_cons_self)
              (endsName_joined names) (endsName_joined names'),
            ih hrest hrest', List.cons_lt_cons_iff]

end Separators

/-! ## The first difference -/

section Differences

/-- The texts agree up to a place where one goes on with `a` and the other with `b`. -/
def Diverge (a b : α) (s t : List α) : Prop :=
  ∃ front rest rest', s = front ++ a :: rest ∧ t = front ++ b :: rest'

theorem Diverge.cons {a b : α} {s t : List α} (c : α) (h : Diverge a b s t) :
    Diverge a b (c :: s) (c :: t) := by
  obtain ⟨front, rest, rest', rfl, rfl⟩ := h
  exact ⟨c :: front, rest, rest', rfl, rfl⟩

theorem Diverge.symm {a b : α} {s t : List α} (h : Diverge a b s t) : Diverge b a t s := by
  obtain ⟨front, rest, rest', rfl, rfl⟩ := h
  exact ⟨front, rest', rest, rfl, rfl⟩

theorem diverge_cons_iff {a b c d : α} {s t : List α} (hne : a ≠ b) :
    Diverge a b (c :: s) (d :: t) ↔ c = a ∧ d = b ∨ c = d ∧ Diverge a b s t := by
  constructor
  · rintro ⟨front, rest, rest', hs, ht⟩
    cases front with
    | nil =>
        obtain ⟨rfl, -⟩ := List.cons_eq_cons.mp hs
        obtain ⟨rfl, -⟩ := List.cons_eq_cons.mp ht
        exact .inl ⟨rfl, rfl⟩
    | cons e front =>
        obtain ⟨rfl, rfl⟩ := List.cons_eq_cons.mp hs
        obtain ⟨rfl, rfl⟩ := List.cons_eq_cons.mp ht
        exact .inr ⟨rfl, front, rest, rest', rfl, rfl⟩
  · rintro (⟨rfl, rfl⟩ | ⟨rfl, h⟩)
    · exact ⟨[], s, t, rfl, rfl⟩
    · exact h.cons c

variable [LinearOrder β] {f g : α → β}

/-- Two orders of one alphabet: where one puts a text first and the other does not, their first
difference is one on which the orders disagree. -/
theorem map_lt_and_not_map_lt_iff (hf : Function.Injective f) (hg : Function.Injective g)
    {s t : List α} :
    (s.map f < t.map f ∧ ¬ s.map g < t.map g) ↔
      ∃ a b, f a < f b ∧ g b < g a ∧ Diverge a b s t := by
  have hne {a b : α} (h : f a < f b) : a ≠ b := by
    rintro rfl
    exact lt_irrefl _ h
  induction s generalizing t with
  | nil =>
      cases t <;> simp [Diverge]
  | cons c s ih =>
      cases t with
      | nil => simp [Diverge]
      | cons d t =>
          by_cases hcd : c = d
          · subst hcd
            have hrest := @ih t
            rw [List.map_cons, List.map_cons, List.map_cons, List.map_cons,
              List.cons_lt_cons_self, List.cons_lt_cons_self]
            refine hrest.trans ?_
            constructor
            · rintro ⟨a, b, hab, hba, h⟩
              exact ⟨a, b, hab, hba, h.cons c⟩
            · rintro ⟨a, b, hab, hba, h⟩
              rcases (diverge_cons_iff (hne hab)).mp h with ⟨rfl, rfl⟩ | ⟨-, h⟩
              · exact absurd hab (lt_irrefl _)
              · exact ⟨a, b, hab, hba, h⟩
          · have hfcd : f c ≠ f d := hf.ne hcd
            have hgcd : g c ≠ g d := hg.ne hcd
            simp only [List.map_cons, List.cons_lt_cons_iff, hfcd, hgcd, false_and, or_false]
            constructor
            · rintro ⟨hlt, hnot⟩
              exact ⟨c, d, hlt, lt_of_le_of_ne (not_lt.mp hnot) hgcd.symm, [], s, t, rfl, rfl⟩
            · rintro ⟨a, b, hab, hba, h⟩
              rcases (diverge_cons_iff (hne hab)).mp h with ⟨rfl, rfl⟩ | ⟨hsame, -⟩
              · exact ⟨hab, not_lt_of_gt hba⟩
              · exact absurd hsame hcd

end Differences

end CppContextEngine.Foundation
