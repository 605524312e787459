import Mathlib.Data.List.Nodup

/-!
# The first element of each key

A collector that remembers the keys it has seen keeps the first element of each
key.  It loses nothing of what elements with one key agree on.
-/

namespace CppContextEngine.Foundation

variable {α κ γ : Type} [DecidableEq κ]

/-- What is left when each element whose key was seen before is dropped. -/
def firstPerKey (key : α → κ) : List α → List α
  | [] => []
  | a :: rest => a :: (firstPerKey key rest).filter fun b => key b ≠ key a

variable {key : α → κ} {elements : List α}

theorem firstPerKey_sublist (key : α → κ) (elements : List α) :
    (firstPerKey key elements).Sublist elements := by
  induction elements with
  | nil => simp [firstPerKey]
  | cons a rest ih => simpa [firstPerKey] using List.filter_sublist.trans ih

theorem nodup_firstPerKey : ((firstPerKey key elements).map key).Nodup := by
  induction elements with
  | nil => simp [firstPerKey]
  | cons a rest ih =>
      simp only [firstPerKey, List.map_cons, List.nodup_cons]
      constructor
      · simp
      · exact (List.filter_sublist.map key).nodup ih

theorem nodup_firstPerKey_id {α : Type} [DecidableEq α] (elements : List α) :
    (firstPerKey id elements).Nodup := by
  have hkeys : ((firstPerKey id elements).map id).Nodup := nodup_firstPerKey
  rwa [List.map_id] at hkeys

theorem exists_mem_firstPerKey {a : α} (ha : a ∈ elements) :
    ∃ b ∈ firstPerKey key elements, key b = key a := by
  induction elements with
  | nil => simp at ha
  | cons first rest ih =>
      by_cases hkey : key first = key a
      · exact ⟨first, by simp [firstPerKey], hkey⟩
      have hrest : a ∈ rest := by
        rcases List.mem_cons.mp ha with rfl | hrest
        · simp at hkey
        · exact hrest
      obtain ⟨b, hb, hba⟩ := ih hrest
      refine ⟨b, ?_, hba⟩
      simp only [firstPerKey, List.mem_cons, List.mem_filter]
      right
      simp [hb, hba, Ne.symm hkey]

theorem mem_firstPerKey_id {α : Type} [DecidableEq α] {elements : List α} {a : α} :
    a ∈ firstPerKey id elements ↔ a ∈ elements := by
  constructor
  · exact fun h => (firstPerKey_sublist id elements).subset h
  · intro h
    have hkept : ∃ b ∈ firstPerKey id elements, id b = id a := exists_mem_firstPerKey h
    obtain ⟨b, hb, rfl⟩ := hkept
    exact hb

/-- Keys that tell the same elements apart keep the same elements. -/
theorem firstPerKey_congr {κ' : Type} [DecidableEq κ'] {key' : α → κ'}
    (h : ∀ a ∈ elements, ∀ b ∈ elements, key a = key b ↔ key' a = key' b) :
    firstPerKey key elements = firstPerKey key' elements := by
  induction elements with
  | nil => rfl
  | cons a rest ih =>
      have hrest := ih fun b hb c hc =>
        h b (List.mem_cons_of_mem _ hb) c (List.mem_cons_of_mem _ hc)
      rw [firstPerKey, firstPerKey, hrest]
      congr 1
      apply List.filter_congr
      intro b hb
      have hmem := (firstPerKey_sublist key' rest).subset hb
      simp [h b (List.mem_cons_of_mem _ hmem) a List.mem_cons_self]

/-- Of elements in order, those are kept that none with their key comes before. -/
theorem mem_firstPerKey_iff {before : α → α → Prop} (hasymm : ∀ a b, before a b → ¬ before b a)
    (hsorted : elements.Pairwise before) {a : α} :
    a ∈ firstPerKey key elements ↔
      a ∈ elements ∧ ∀ b ∈ elements, key b = key a → ¬ before b a := by
  induction elements with
  | nil => simp [firstPerKey]
  | cons first rest ih =>
      obtain ⟨hfirst, hrest⟩ := List.pairwise_cons.mp hsorted
      rw [firstPerKey, List.mem_cons, List.mem_filter, ih hrest]
      constructor
      · rintro (rfl | ⟨⟨hmem, hall⟩, hkey⟩)
        · refine ⟨List.mem_cons_self, fun b hb _ hbefore => ?_⟩
          rcases List.mem_cons.mp hb with rfl | hb
          · exact hasymm b b hbefore hbefore
          · exact hasymm a b (hfirst b hb) hbefore
        · refine ⟨List.mem_cons_of_mem _ hmem, fun b hb hsame => ?_⟩
          rcases List.mem_cons.mp hb with rfl | hb
          · simp [hsame] at hkey
          · exact hall b hb hsame
      · rintro ⟨hmem, hall⟩
        rcases List.mem_cons.mp hmem with rfl | hmem
        · exact .inl rfl
        · refine .inr ⟨⟨hmem, fun b hb => hall b (List.mem_cons_of_mem _ hb)⟩, ?_⟩
          have hne : key first ≠ key a := fun hsame =>
            hall first List.mem_cons_self hsame (hfirst a hmem)
          simpa using hne.symm

/-- What elements of one key agree on, the kept ones show. -/
theorem exists_mem_firstPerKey_of_agree {content : α → γ}
    (hagree : ∀ a ∈ elements, ∀ b ∈ elements, key a = key b → content a = content b) {a : α}
    (ha : a ∈ elements) : ∃ b ∈ firstPerKey key elements, content b = content a := by
  have hkept : ∃ b ∈ firstPerKey key elements, key b = key a := exists_mem_firstPerKey ha
  obtain ⟨b, hb, hkey⟩ := hkept
  exact ⟨b, hb, hagree b ((firstPerKey_sublist key elements).subset hb) a ha hkey⟩

section Sink

/-- One step of a collector that holds the keys it has seen and what it kept. -/
def keepFirst (key : α → κ) (state : List κ × List α) (a : α) : List κ × List α :=
  if key a ∈ state.1 then state else (key a :: state.1, state.2 ++ [a])

theorem foldl_keepFirst (elements : List α) (seen : List κ) (kept : List α) :
    (elements.foldl (keepFirst key) (seen, kept)).2 =
      kept ++ (firstPerKey key elements).filter (key · ∉ seen) := by
  induction elements generalizing seen kept with
  | nil => simp [firstPerKey]
  | cons a rest ih =>
      by_cases hseen : key a ∈ seen
      · have hdropped : ∀ b ∈ firstPerKey key rest, key b ∉ seen → key b ≠ key a := by
          rintro b - hb heq
          exact hb (heq ▸ hseen)
        simp only [List.foldl_cons, keepFirst, hseen, if_true, ih, firstPerKey, List.filter_cons,
          not_true_eq_false, decide_false, Bool.false_eq_true, if_false, List.filter_filter]
        congr 1
        apply List.filter_congr
        intro b hb
        have := hdropped b hb
        grind
      · simp only [List.foldl_cons, keepFirst, hseen, if_false, ih, firstPerKey, List.filter_cons,
          not_false_eq_true, decide_true, if_true, List.filter_filter, List.append_assoc,
          List.singleton_append, List.mem_cons, not_or]
        congr 2
        apply List.filter_congr
        intro b _
        simp [Bool.and_comm]

/-- The collector's loop keeps the first element of each key. -/
theorem foldl_keepFirst_nil (elements : List α) :
    (elements.foldl (keepFirst key) ([], [])).2 = firstPerKey key elements := by
  simp [foldl_keepFirst]

end Sink

section InsertOrIgnore

/-- An insertion that is ignored when the key is stored. -/
def insertNew (key : α → κ) (stored : List α) (a : α) : List α :=
  if key a ∈ stored.map key then stored else stored ++ [a]

theorem nodup_insertNew {stored : List α} (h : (stored.map key).Nodup) (a : α) :
    ((insertNew key stored a).map key).Nodup := by
  unfold insertNew
  split
  · exact h
  · rename_i hnew
    rw [List.map_append, List.nodup_append]
    refine ⟨h, by simp, ?_⟩
    intro k hk other hother hkey
    rw [List.map_singleton, List.mem_singleton] at hother
    exact hnew (hother ▸ hkey ▸ hk)

/-- Insertions that are ignored for stored keys keep the first element of each new key. -/
theorem foldl_insertNew (elements : List α) : ∀ stored : List α,
    elements.foldl (insertNew key) stored =
      stored ++ (firstPerKey key elements).filter (key · ∉ stored.map key) := by
  induction elements with
  | nil =>
      intro stored
      simp [firstPerKey]
  | cons a rest ih =>
      intro stored
      rw [List.foldl_cons, ih]
      by_cases hseen : key a ∈ stored.map key
      · have hdropped : ∀ b ∈ firstPerKey key rest, key b ∉ stored.map key → key b ≠ key a := by
          intro b _ hb heq
          exact hb (heq ▸ hseen)
        simp only [insertNew, hseen, if_true, firstPerKey, List.filter_cons, not_true_eq_false,
          decide_false, Bool.false_eq_true, if_false, List.filter_filter]
        congr 1
        apply List.filter_congr
        intro b hb
        have := hdropped b hb
        grind
      · simp only [insertNew, hseen, if_false, firstPerKey, List.filter_cons, not_false_eq_true,
          decide_true, if_true, List.filter_filter, List.append_assoc, List.singleton_append,
          List.map_append, List.map_cons, List.map_nil, List.mem_append, List.mem_singleton, not_or]
        congr 2
        apply List.filter_congr
        intro b _
        simp [Bool.and_comm]

end InsertOrIgnore

end CppContextEngine.Foundation
