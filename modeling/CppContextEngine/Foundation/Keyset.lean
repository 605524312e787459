import CppContextEngine.Foundation.Ranking

/-!
# Keyset pages

A page is read behind the key of the last row that was delivered.  Rows may
disappear between two pages once they are delivered; the pages are then the
slices of the rows that were there at the start.
-/

namespace CppContextEngine.Foundation

section Pages

variable {ρ κ : Type} [LinearOrder κ] (key : ρ → κ)

/-- The rows behind a key, or all of them. -/
def beyond (rows : List ρ) : Option κ → List ρ
  | none => rows
  | some last => rows.filter fun row => last < key row

/-- Sorted lists of the same rows with different keys are equal. -/
theorem eq_sortBy_of_perm {rows sorted : List ρ} (hkeys : (rows.map key).Nodup)
    (hsorted : sorted.Pairwise fun row other => key row ≤ key other)
    (hperm : sorted.Perm rows) : sorted = sortBy key rows := by
  refine (hperm.trans (sortBy_perm key rows).symm).eq_of_pairwise ?_ hsorted
    (sortBy_pairwise key rows)
  intro row other hrow hother hle hge
  rw [mem_sortBy] at hother
  exact List.inj_on_of_nodup_map hkeys (hperm.mem_iff.mp hrow) hother (le_antisymm hle hge)

/-- Behind a page there is what was behind its start, less the page. -/
theorem sortBy_beyond_page {rows rest : List ρ} {cursor : Option κ} {size : Nat} {last : ρ}
    {keep : ρ → Bool} (hkeys : (rows.map key).Nodup)
    (hrest : sortBy key (beyond key rows cursor) = rest)
    (hlast : (rest.take size).getLast? = some last)
    (hkeep : ∀ row ∈ rest.drop size, keep row = true) :
    sortBy key (beyond key (rows.filter keep) (some (key last))) = rest.drop size := by
  have hbeyond : (beyond key rows cursor).Sublist rows := by
    cases cursor with
    | none => exact List.Sublist.refl _
    | some last => exact List.filter_sublist
  have hstrict := pairwise_lt_sortBy key ((hbeyond.map key).nodup hkeys)
  rw [hrest, ← List.take_append_drop size rest, List.pairwise_append] at hstrict
  obtain ⟨init, hinit⟩ := List.getLast?_eq_some_iff.mp hlast
  have hmem : last ∈ beyond key rows cursor := by
    rw [← mem_sortBy key, hrest]
    exact List.mem_of_mem_take (List.mem_of_getLast? hlast)
  have hfilter : beyond key (rows.filter keep) (some (key last)) =
      (beyond key rows cursor).filter fun row => decide (key last < key row) && keep row := by
    cases cursor with
    | none => simp [beyond, List.filter_filter]
    | some first =>
        simp only [beyond, List.mem_filter, decide_eq_true_eq] at hmem
        simp only [beyond, List.filter_filter]
        apply List.filter_congr
        intro row _
        have : key last < key row → first < key row := hmem.2.trans
        by_cases hrow : key last < key row <;> simp [hrow, this]
  rw [hfilter, ← filter_sortBy, hrest]
  conv_lhs => rw [← List.take_append_drop size rest]
  rw [List.filter_append, List.filter_eq_nil_iff.mpr, List.filter_eq_self.mpr, List.nil_append]
  · intro row hrow
    have hlt := hstrict.2.2 last (List.mem_of_getLast? hlast) row hrow
    simp [hlt, hkeep row hrow]
  · intro row hrow
    have hle : key row ≤ key last := by
      rw [hinit] at hrow
      rcases List.mem_append.mp hrow with hrow | hrow
      · rw [hinit, List.pairwise_append] at hstrict
        exact (hstrict.1.2.2 row hrow last (by simp)).le
      · simp only [List.mem_singleton] at hrow
        rw [hrow]
    simp [not_lt.mpr hle]

end Pages

/-! ## Two seeks behind a composite key -/

section Seeks

variable {ρ γ ι : Type} [LinearOrder γ] [LinearOrder ι] (group : ρ → γ) (item : ρ → ι)

/-- `ORDER BY group, item` -/
def groupItem (row : ρ) : γ ×ₗ ι := toLex (group row, item row)

/-- The rest of the current group and, where that is short, the groups behind it. -/
def seek (rows : List ρ) (size : Nat) : Option (γ × ι) → List ρ
  | none => (sortBy (groupItem group item) rows).take size
  | some (lastGroup, lastItem) =>
      let rest := (sortBy item (rows.filter fun row =>
        group row = lastGroup ∧ lastItem < item row)).take size
      if rest.length < size then
        rest ++ (sortBy (groupItem group item) (rows.filter fun row => lastGroup < group row)).take
          (size - rest.length)
      else rest

theorem sortBy_beyond_group {rows : List ρ} (hkeys : (rows.map (groupItem group item)).Nodup)
    (lastGroup : γ) (lastItem : ι) :
    sortBy item (rows.filter fun row => group row = lastGroup ∧ lastItem < item row) ++
        sortBy (groupItem group item) (rows.filter fun row => lastGroup < group row) =
      sortBy (groupItem group item)
        (beyond (groupItem group item) rows (some (toLex (lastGroup, lastItem)))) := by
  apply eq_sortBy_of_perm
  · exact (List.filter_sublist.map _).nodup hkeys
  · rw [List.pairwise_append]
    refine ⟨?_, sortBy_pairwise _ _, ?_⟩
    · apply List.Pairwise.imp_of_mem _ (sortBy_pairwise item _)
      intro row other hrow hother hle
      simp only [mem_sortBy, List.mem_filter, decide_eq_true_eq] at hrow hother
      simp [groupItem, Prod.Lex.toLex_le_toLex, hrow.2.1, hother.2.1, hle]
    · intro row hrow other hother
      simp only [mem_sortBy, List.mem_filter, decide_eq_true_eq] at hrow hother
      simp [groupItem, Prod.Lex.toLex_le_toLex, hrow.2.1, hother.2]
  · refine ((sortBy_perm item _).append (sortBy_perm _ _)).trans ?_
    have hsplit : ∀ row, decide (toLex (lastGroup, lastItem) < groupItem group item row) =
        (decide (group row = lastGroup ∧ lastItem < item row) ||
          decide (lastGroup < group row)) := by
      intro row
      simp only [groupItem, Prod.Lex.toLex_lt_toLex, ← Bool.decide_or, decide_eq_decide]
      tauto
    simp only [beyond, hsplit]
    induction rows with
    | nil => simp
    | cons row rows ih =>
        have ih := ih (List.nodup_cons.mp hkeys).2
        by_cases hgroup : lastGroup < group row
        · have hne : ¬ group row = lastGroup := ne_of_gt hgroup
          simpa [hgroup, hne] using List.perm_middle.trans (ih.cons row)
        · by_cases hsame : group row = lastGroup ∧ lastItem < item row
          · simpa [hgroup, hsame] using ih.cons row
          · simpa [hgroup, hsame] using ih

/-- The two seeks read one page of the composite key. -/
theorem seek_eq {rows : List ρ} (hkeys : (rows.map (groupItem group item)).Nodup) (size : Nat)
    (cursor : Option (γ × ι)) :
    seek group item rows size cursor =
      (sortBy (groupItem group item)
        (beyond (groupItem group item) rows (cursor.map toLex))).take size := by
  cases cursor with
  | none => rfl
  | some last =>
      obtain ⟨lastGroup, lastItem⟩ := last
      simp only [seek, Option.map_some]
      rw [← sortBy_beyond_group group item hkeys, List.take_append, List.length_take]
      split
      case isTrue h =>
        congr 2
        omega
      case isFalse h =>
        rw [Nat.sub_eq_zero_of_le (by omega), List.take_zero, List.append_nil]

end Seeks

end CppContextEngine.Foundation
