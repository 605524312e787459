import Mathlib.Data.List.Sort
import Mathlib.Data.List.Perm.Subperm
import Mathlib.Data.Prod.Lex

/-!
# Ranked rows and cuts

Rows are ordered by a key.  A cut that keeps every row before a kept one keeps
a prefix of the ranking, so the first rows of the ranking survive a cut that
keeps enough of them.
-/

namespace CppContextEngine.Foundation

section Sorting

variable {ρ κ : Type} [LinearOrder κ] (key : ρ → κ)

/-- `ORDER BY key` -/
def sortBy (rows : List ρ) : List ρ :=
  rows.insertionSort fun row other => key row ≤ key other

@[simp] theorem mem_sortBy {rows : List ρ} {row : ρ} : row ∈ sortBy key rows ↔ row ∈ rows :=
  List.mem_insertionSort _

@[simp] theorem length_sortBy (rows : List ρ) : (sortBy key rows).length = rows.length :=
  List.length_insertionSort _ rows

theorem sortBy_perm (rows : List ρ) : (sortBy key rows).Perm rows :=
  List.perm_insertionSort _ rows

theorem sortBy_pairwise (rows : List ρ) :
    (sortBy key rows).Pairwise fun row other => key row ≤ key other := by
  unfold sortBy
  have htotal : Std.Total fun row other : ρ => key row ≤ key other := ⟨fun _ _ => le_total _ _⟩
  have htrans : IsTrans ρ fun row other => key row ≤ key other := ⟨fun _ _ _ => le_trans⟩
  exact List.pairwise_insertionSort _ rows

theorem pairwise_lt_sortBy {rows : List ρ} (hkeys : (rows.map key).Nodup) :
    (sortBy key rows).Pairwise fun row other => key row < key other := by
  have hnodup : ((sortBy key rows).map key).Nodup :=
    ((sortBy_perm key rows).map key).nodup_iff.mpr hkeys
  exact ((sortBy_pairwise key rows).and (List.pairwise_map.mp hnodup)).imp fun h =>
    lt_of_le_of_ne h.1 h.2

theorem sortBy_eq_self {rows : List ρ}
    (hsorted : rows.Pairwise fun row other => key row ≤ key other) : sortBy key rows = rows :=
  hsorted.insertionSort_eq

/-- Rows with different keys have one order only. -/
theorem sortBy_eq_of_perm {rows others : List ρ} (hperm : rows.Perm others)
    (hkey : ∀ row ∈ rows, ∀ other ∈ rows, key row = key other → row = other) :
    sortBy key rows = sortBy key others := by
  have hsorted : (sortBy key rows).Perm (sortBy key others) :=
    (sortBy_perm key rows).trans (hperm.trans (sortBy_perm key others).symm)
  refine hsorted.eq_of_pairwise ?_ (sortBy_pairwise key rows) (sortBy_pairwise key others)
  intro row other hrow hother hle hge
  rw [mem_sortBy] at hrow hother
  exact hkey row hrow other (hperm.mem_iff.mpr hother) (le_antisymm hle hge)

theorem filter_orderedInsert {p : ρ → Bool} {row : ρ} {rows : List ρ}
    (hrows : rows.Pairwise fun row other => key row ≤ key other) :
    (rows.orderedInsert (fun row other => key row ≤ key other) row).filter p =
      if p row then
        (rows.filter p).orderedInsert (fun row other => key row ≤ key other) row
      else rows.filter p := by
  induction rows with
  | nil => cases hp : p row <;> simp [hp]
  | cons head rows ih =>
      rw [List.pairwise_cons] at hrows
      by_cases hle : key row ≤ key head
      · -- everything that is left comes after `row`
        have hall : ∀ other ∈ (head :: rows).filter p, key row ≤ key other := by
          intro other hother
          rcases List.mem_cons.mp (List.mem_of_mem_filter hother) with rfl | hother
          · exact hle
          · exact hle.trans (hrows.1 other hother)
        have hfront : ((head :: rows).filter p).orderedInsert
            (fun row other => key row ≤ key other) row = row :: (head :: rows).filter p := by
          cases hkept : (head :: rows).filter p with
          | nil => rfl
          | cons first kept =>
              have hfirst : key row ≤ key first := hall first (by simp [hkept])
              simp [hfirst]
        rw [hfront, List.orderedInsert_cons, if_pos hle, List.filter_cons]
      · rw [List.orderedInsert_cons, if_neg hle, List.filter_cons, ih hrows.2, List.filter_cons]
        cases hp : p row <;> cases hhead : p head <;> simp [hle]

theorem filter_sortBy (p : ρ → Bool) (rows : List ρ) :
    (sortBy key rows).filter p = sortBy key (rows.filter p) := by
  induction rows with
  | nil => rfl
  | cons row rows ih =>
      have hstep : sortBy key (row :: rows) = (sortBy key rows).orderedInsert
          (fun row other => key row ≤ key other) row := rfl
      rw [hstep, filter_orderedInsert key (sortBy_pairwise key rows), ih, List.filter_cons]
      cases p row <;> rfl

theorem filter_eq_takeWhile {p : ρ → Bool} {rows : List ρ}
    (hrows : rows.Pairwise fun row other => key row ≤ key other)
    (hup : ∀ row other, key row ≤ key other → p other = true → p row = true) :
    rows.filter p = rows.takeWhile p := by
  induction rows with
  | nil => rfl
  | cons row rows ih =>
      rw [List.pairwise_cons] at hrows
      rw [List.filter_cons, List.takeWhile_cons, ih hrows.2]
      cases hp : p row with
      | true => rfl
      | false =>
          have hnone : rows.filter p = [] := by
            refine List.filter_eq_nil_iff.mpr fun other hother hkept => ?_
            have := hup row other (hrows.1 other hother) hkept
            simp [hp] at this
          simpa [ih hrows.2] using hnone

/-- A cut that keeps enough rows keeps the first ones. -/
theorem take_sortBy_filter {p : ρ → Bool} {rows : List ρ} {count : Nat}
    (hup : ∀ row other, key row ≤ key other → p other = true → p row = true)
    (henough : count ≤ (rows.filter p).length ∨ ∀ row ∈ rows, p row = true) :
    (sortBy key (rows.filter p)).take count = (sortBy key rows).take count := by
  rcases henough with henough | hall
  · have hprefix : sortBy key (rows.filter p) <+: sortBy key rows := by
      rw [← filter_sortBy, filter_eq_takeWhile key (sortBy_pairwise key rows) hup]
      exact List.takeWhile_prefix p
    obtain ⟨rest, hrest⟩ := hprefix
    rw [← hrest, List.take_append_of_le_length (by simpa using henough)]
  · rw [List.filter_eq_self.mpr hall]

/-- Sorting is stable: sorted rows are known by the rows of each key. -/
theorem eq_of_filter_key {rows others : List ρ}
    (hrows : rows.Pairwise fun row other => key row ≤ key other)
    (hothers : others.Pairwise fun row other => key row ≤ key other)
    (h : ∀ k, rows.filter (key · = k) = others.filter (key · = k)) : rows = others := by
  induction rows generalizing others with
  | nil =>
      cases others with
      | nil => rfl
      | cons head others => simpa using h (key head)
  | cons row rows ih =>
      cases others with
      | nil => simpa using h (key row)
      | cons head others =>
          have hmem : row ∈ head :: others := by
            have : row ∈ (row :: rows).filter (key · = key row) := by simp
            rw [h] at this
            exact List.mem_of_mem_filter this
          have hmem' : head ∈ row :: rows := by
            have : head ∈ (head :: others).filter (key · = key head) := by simp
            rw [← h] at this
            exact List.mem_of_mem_filter this
          rw [List.pairwise_cons] at hrows hothers
          have hle : key head ≤ key row := by
            rcases List.mem_cons.mp hmem with rfl | hmem
            · exact le_rfl
            · exact hothers.1 row hmem
          have hge : key row ≤ key head := by
            rcases List.mem_cons.mp hmem' with rfl | hmem'
            · exact le_rfl
            · exact hrows.1 head hmem'
          have hkey : key head = key row := le_antisymm hle hge
          have hhead : row = head := by
            have := h (key row)
            simp [hkey] at this
            exact this.1
          subst hhead
          rw [ih hrows.2 hothers.2]
          intro k
          have := h k
          by_cases hk : key row = k <;> simpa [hk] using this

theorem sortBy_filter_key (rows : List ρ) (k : κ) :
    sortBy key (rows.filter (key · = k)) = rows.filter (key · = k) := by
  apply List.Pairwise.insertionSort_eq
  rw [List.pairwise_filter]
  apply List.pairwise_of_forall
  simp +contextual

/-- Rows that are sorted before others are added need not be. -/
theorem sortBy_append_sortBy (rows others : List ρ) :
    sortBy key (sortBy key rows ++ others) = sortBy key (rows ++ others) := by
  apply eq_of_filter_key key (sortBy_pairwise key _) (sortBy_pairwise key _)
  intro k
  simp [filter_sortBy, sortBy_filter_key]

/-- Of rows with different keys, the first `limit` are enough to find the first `count` of a
union. -/
theorem take_sortBy_append {rows : List ρ} (others : List ρ) {count limit : Nat}
    (hkeys : (rows.map key).Nodup) (hle : count ≤ limit) :
    (sortBy key ((sortBy key rows).take limit ++ others)).take count =
      (sortBy key (rows ++ others)).take count := by
  rw [← sortBy_append_sortBy key rows others]
  have hsorted := pairwise_lt_sortBy key hkeys
  generalize sortBy key rows = sorted at hsorted
  rcases Nat.lt_or_ge limit sorted.length with hlt | hge
  swap
  · rw [List.take_of_length_le hge]
  · -- the cut keeps the rows before `last`
    let last := sorted.get ⟨limit, hlt⟩
    let p : ρ → Bool := fun row => key row < key last
    have hup : ∀ row other, key row ≤ key other → p other = true → p row = true := by
      simp only [p, decide_eq_true_eq]
      exact fun _ _ => lt_of_le_of_lt
    have hdrop : sorted.drop limit = last :: sorted.drop (limit + 1) :=
      List.drop_eq_getElem_cons hlt
    have hstrict : (sorted.take limit ++ sorted.drop limit).Pairwise
        fun row other => key row < key other := by
      rwa [List.take_append_drop]
    rw [hdrop, List.pairwise_append, List.pairwise_cons] at hstrict
    have hbefore : ∀ row ∈ sorted.take limit, p row = true := by
      intro row hrow
      simpa [p] using hstrict.2.2 row hrow last (by simp)
    have hafter : ∀ row ∈ sorted.drop limit, ¬ p row = true := by
      intro row hrow
      rw [hdrop] at hrow
      rcases List.mem_cons.mp hrow with rfl | hrow
      · simp [p]
      · simpa [p] using (hstrict.2.1.1 row hrow).le
    have hkept : sorted.filter p = sorted.take limit := by
      conv_lhs => rw [← List.take_append_drop limit sorted]
      rw [List.filter_append, List.filter_eq_self.mpr hbefore, List.filter_eq_nil_iff.mpr hafter,
        List.append_nil]
    have hfilter : (sorted.take limit ++ others).filter p = (sorted ++ others).filter p := by
      rw [List.filter_append, List.filter_append, ← hkept, List.filter_filter]
      simp
    have henough : count ≤ ((sorted ++ others).filter p).length := by
      rw [List.filter_append, hkept, List.length_append, List.length_take]
      omega
    rw [← take_sortBy_filter key hup (.inl (hfilter ▸ henough)), hfilter,
      take_sortBy_filter key hup (.inl henough)]

/-- Two keys that order rows alike. -/
theorem sortBy_congr {κ' : Type} [LinearOrder κ'] {key' : ρ → κ'}
    (h : ∀ row other, key row ≤ key other ↔ key' row ≤ key' other) (rows : List ρ) :
    sortBy key rows = sortBy key' rows := by
  simp [sortBy, h]

/-- A cut before sorting is right just when nothing behind it belongs before it. -/
theorem sortBy_take_eq_iff (rows : List ρ) (limit : Nat) :
    sortBy key (rows.take limit) = (sortBy key rows).take limit ↔
      ∀ kept ∈ rows.take limit, ∀ cut ∈ rows.drop limit, key kept ≤ key cut := by
  constructor
  · intro h kept hkept cut hcut
    have hsplit : (rows.take limit ++ (sortBy key rows).drop limit).Perm
        (rows.take limit ++ rows.drop limit) := by
      have hperm : (sortBy key rows).Perm rows := sortBy_perm key rows
      rw [← List.take_append_drop limit (sortBy key rows), ← h] at hperm
      rw [List.take_append_drop]
      exact ((sortBy_perm key _).symm.append_right _).trans hperm
    have hrest := (List.perm_append_left_iff _).mp hsplit
    have hsorted := sortBy_pairwise key rows
    rw [← List.take_append_drop limit (sortBy key rows), List.pairwise_append] at hsorted
    apply hsorted.2.2 kept _ cut (hrest.mem_iff.mpr hcut)
    rwa [← h, mem_sortBy]
  · intro h
    have hwhole : sortBy key rows = sortBy key (rows.take limit) ++ sortBy key (rows.drop limit) := by
      apply eq_of_filter_key key (sortBy_pairwise key _)
      · rw [List.pairwise_append]
        refine ⟨sortBy_pairwise key _, sortBy_pairwise key _, ?_⟩
        intro kept hkept cut hcut
        rw [mem_sortBy] at hkept hcut
        exact h kept hkept cut hcut
      · intro k
        rw [List.filter_append, filter_sortBy, filter_sortBy, filter_sortBy,
          sortBy_filter_key, sortBy_filter_key, sortBy_filter_key, ← List.filter_append,
          List.take_append_drop]
    rw [hwhole]
    rcases Nat.le_total limit rows.length with hle | hge
    · rw [List.take_left' (by simpa using hle)]
    · have hlength : (sortBy key (rows.take limit)).length ≤ limit := by simp
      rw [List.drop_of_length_le hge, show sortBy key ([] : List ρ) = [] from rfl, List.append_nil,
        List.take_of_length_le hlength]

end Sorting

/-! ## The cut at the `count`-th best score -/

section Cut

variable {α : Type} [LinearOrder α]

/-- `ORDER BY score DESC LIMIT 1 OFFSET count - 1` -/
def nthBest (scores : List α) (count : Nat) : Option α :=
  (scores.insertionSort (· ≥ ·))[count - 1]?

theorem le_countP_of_nthBest {scores : List α} {count : Nat} {best : α}
    (h : nthBest scores count = some best) : count ≤ scores.countP (best ≤ ·) := by
  have hsorted := List.pairwise_insertionSort (· ≥ ·) scores
  have hperm := List.perm_insertionSort (· ≥ ·) scores
  obtain ⟨hlt, hbest⟩ := List.getElem?_eq_some_iff.mp h
  have hfirst : ∀ score ∈ (scores.insertionSort (· ≥ ·)).take count, best ≤ score := by
    intro score hscore
    obtain ⟨i, hi, rfl⟩ := List.getElem_of_mem hscore
    rw [List.length_take] at hi
    rw [List.getElem_take, ← hbest]
    rcases Nat.lt_or_ge i (count - 1) with hlater | hlast
    · exact List.pairwise_iff_getElem.mp hsorted i (count - 1) (by omega) hlt hlater
    · have hi' : i = count - 1 := by omega
      subst hi'
      exact le_rfl
  have hall : ((scores.insertionSort (· ≥ ·)).take count).countP (best ≤ ·) =
      ((scores.insertionSort (· ≥ ·)).take count).length :=
    List.countP_eq_length.mpr fun score hscore => by simpa using hfirst score hscore
  have hle : ((scores.insertionSort (· ≥ ·)).take count).countP (best ≤ ·) ≤
      (scores.insertionSort (· ≥ ·)).countP (best ≤ ·) :=
    (List.take_sublist count _).countP_le
  rw [hall, List.length_take, hperm.countP_eq] at hle
  have hcount : count ≤ (scores.insertionSort (· ≥ ·)).length := by omega
  omega

/-- Keys that differ and each have a row are no more than the rows. -/
theorem countP_le_length_of_rows {ρ κ : Type} {key : ρ → κ} {keys : List κ} {rows : List ρ}
    {good : κ → Bool} (hkeys : keys.Nodup)
    (hrows : ∀ k ∈ keys, good k = true → ∃ row ∈ rows, key row = k) :
    keys.countP good ≤ rows.length := by
  have hsubset : keys.filter good ⊆ rows.map key := by
    intro k hk
    obtain ⟨hmem, hgood⟩ := List.mem_filter.mp hk
    exact List.mem_map.mpr (hrows k hmem hgood)
  have hle := (List.subperm_of_subset (hkeys.filter good) hsubset).length_le
  rwa [← List.countP_eq_length_filter, List.length_map] at hle

end Cut

section Numbers

variable {ρ κ τ : Type} [LinearOrder κ] {key : ρ → κ}

/-- The first row that is wanted has the rows of smaller keys before it. -/
theorem findSome?_zipIdx_eq {rows : List ρ} (wanted : ρ → Bool) (result : Nat → ρ → τ) {row : ρ}
    (hsorted : rows.Pairwise fun first second => key first < key second) (hrow : row ∈ rows)
    (hwanted : wanted row = true)
    (hfirst : ∀ other ∈ rows, wanted other = true → key row ≤ key other) :
    (rows.zipIdx.findSome? fun (other, index) =>
        if wanted other then some (result index other) else none) =
      some (result (rows.countP fun other => key other < key row) row) := by
  obtain ⟨before, after, rfl⟩ := List.append_of_mem hrow
  obtain ⟨-, hafter, hbefore⟩ := List.pairwise_append.mp hsorted
  have hless : ∀ other ∈ before, key other < key row :=
    fun other hother => hbefore other hother row List.mem_cons_self
  have hmore : ∀ other ∈ after, ¬ key other < key row :=
    fun other hother => not_lt_of_gt ((List.pairwise_cons.mp hafter).1 other hother)
  have hcount : (before ++ row :: after).countP (fun other => key other < key row) =
      before.length := by
    have hall : before.countP (fun other => key other < key row) = before.length :=
      List.countP_eq_length.mpr (by simpa using hless)
    have hnone : after.countP (fun other => key other < key row) = 0 :=
      List.countP_eq_zero.mpr (by simpa using hmore)
    simp [List.countP_append, hall, hnone]
  have hnone : (before.zipIdx.findSome? fun (other, index) =>
      if wanted other then some (result index other) else none) = none := by
    rw [List.findSome?_eq_none_iff]
    rintro ⟨other, index⟩ hother
    have hmem : other ∈ before := (List.mem_zipIdx' hother).2 ▸ List.getElem_mem _
    have hnot : wanted other ≠ true := fun h =>
      not_lt_of_ge (hfirst other (List.mem_append_left _ hmem) h) (hless other hmem)
    simp [hnot]
  rw [hcount, List.zipIdx_append, List.findSome?_append, hnone]
  simp [hwanted]

omit [LinearOrder κ] in
theorem countP_split (p q : ρ → Bool) (rows : List ρ) :
    rows.countP p = rows.countP (fun row => p row && q row) +
      rows.countP fun row => p row && !q row := by
  induction rows with
  | nil => rfl
  | cons row rows ih =>
      rw [List.countP_cons, List.countP_cons, List.countP_cons, ih]
      cases p row <;> cases q row <;> simp <;> omega

omit [LinearOrder κ] in
/-- Two counts agree when as many rows are missing on one side as on the other. -/
theorem countP_eq_iff (p q : ρ → Bool) (rows : List ρ) :
    rows.countP p = rows.countP q ↔
      (rows.countP fun row => p row && !q row) = rows.countP fun row => q row && !p row := by
  have hboth : (rows.countP fun row => p row && q row) =
      rows.countP fun row => q row && p row := by
    simp only [Bool.and_comm]
  have hp := countP_split p q rows
  have hq := countP_split q p rows
  omega

end Numbers

end CppContextEngine.Foundation
