import Mathlib.Data.List.Forall2

/-!
# Steps that can fail

A step returns a result or raises.  The rules here say when a sequence of
steps returns, whatever it would have raised.
-/

namespace CppContextEngine.Foundation

/-- `if condition: raise error` -/
def throwIf {ε : Type} (condition : Prop) [Decidable condition] (error : ε) : Except ε Unit :=
  if condition then throw error else pure ()

variable {ε α β : Type}

theorem bind_eq_ok {first : Except ε α} {next : α → Except ε β} {b : β} :
    first >>= next = .ok b ↔ ∃ a, first = .ok a ∧ next a = .ok b := by
  cases first with
  | error e => simp [bind, Except.bind]
  | ok a => simp [bind, Except.bind]

theorem mapError_eq_ok {ε' : Type} {step : Except ε α} {wrap : ε → ε'} {a : α} :
    step.mapError wrap = .ok a ↔ step = .ok a := by
  cases step <;> simp [Except.mapError]

theorem mapM_of_forall {f : β → Except ε α} {g : α → β} {items : List α}
    (h : ∀ item ∈ items, f (g item) = .ok item) : (items.map g).mapM f = .ok items := by
  induction items with
  | nil => rfl
  | cons item items ih =>
      rw [List.map_cons, List.mapM_cons, h item List.mem_cons_self,
        ih fun other hother => h other (List.mem_cons_of_mem _ hother)]
      rfl

theorem mapM_ok_iff {f : β → Except ε α} {items : List β} : ∀ {results : List α},
    items.mapM f = .ok results ↔ List.Forall₂ (fun item result => f item = .ok result) items
      results := by
  induction items with
  | nil =>
      intro results
      cases results <;> simp [pure, Except.pure]
  | cons item items ih =>
      intro results
      rw [List.mapM_cons, bind_eq_ok, List.forall₂_cons_left_iff]
      constructor
      · rintro ⟨result, hresult, hrest⟩
        obtain ⟨rest, hmap, hok⟩ := bind_eq_ok.mp hrest
        cases hok
        exact ⟨result, rest, hresult, ih.mp hmap, rfl⟩
      · rintro ⟨result, rest, hresult, hrest, rfl⟩
        exact ⟨result, hresult, bind_eq_ok.mpr ⟨rest, ih.mpr hrest, rfl⟩⟩

/-- Steps that compute one function, each under a condition of its own. -/
theorem mapM_eq_ok_iff {f : β → Except ε α} {condition : β → Prop} {g : β → α}
    (hf : ∀ item result, f item = .ok result ↔ condition item ∧ result = g item)
    {items : List β} {results : List α} :
    items.mapM f = .ok results ↔ (∀ item ∈ items, condition item) ∧ results = items.map g := by
  induction items generalizing results with
  | nil => simp [pure, Except.pure, eq_comm]
  | cons item items ih =>
      rw [List.mapM_cons, bind_eq_ok]
      constructor
      · rintro ⟨result, hresult, hrest⟩
        obtain ⟨rest, hmap, hok⟩ := bind_eq_ok.mp hrest
        cases hok
        obtain ⟨hcondition, rfl⟩ := (hf item result).mp hresult
        obtain ⟨hconditions, rfl⟩ := ih.mp hmap
        exact ⟨List.forall_mem_cons.mpr ⟨hcondition, hconditions⟩, rfl⟩
      · rintro ⟨hconditions, rfl⟩
        rw [List.forall_mem_cons] at hconditions
        exact ⟨g item, (hf item _).mpr ⟨hconditions.1, rfl⟩,
          bind_eq_ok.mpr ⟨items.map g, ih.mpr ⟨hconditions.2, rfl⟩, rfl⟩⟩

/-- A step that keeps a key keeps the keys of all items. -/
theorem map_of_mapM {κ : Type} {f : β → Except ε α} {key : α → κ} {key' : β → κ}
    (hf : ∀ item result, f item = .ok result → key result = key' item) {items : List β}
    {results : List α} (h : items.mapM f = .ok results) : results.map key = items.map key' := by
  induction mapM_ok_iff.mp h with
  | nil => rfl
  | cons hitem hrest ih => simp [hf _ _ hitem, ih (mapM_ok_iff.mpr hrest)]

theorem option_mapM_iff {f : β → Option α} {items : List β} : ∀ {results : List α},
    items.mapM f = some results ↔
      List.Forall₂ (fun item result => f item = some result) items results := by
  induction items with
  | nil =>
      intro results
      cases results <;> simp
  | cons item items ih =>
      intro results
      rw [List.mapM_cons, List.forall₂_cons_left_iff]
      constructor
      · intro h
        obtain ⟨result, hresult, hrest⟩ := Option.bind_eq_some_iff.mp h
        obtain ⟨rest, hmap, hsome⟩ := Option.bind_eq_some_iff.mp hrest
        cases hsome
        exact ⟨result, rest, hresult, ih.mp hmap, rfl⟩
      · rintro ⟨result, rest, hresult, hrest, rfl⟩
        exact Option.bind_eq_some_iff.mpr
          ⟨result, hresult, Option.bind_eq_some_iff.mpr ⟨rest, ih.mpr hrest, rfl⟩⟩

theorem exists_of_mem_results {f : β → Except ε α} {items : List β} {results : List α}
    (h : List.Forall₂ (fun item result => f item = .ok result) items results) {result : α}
    (hresult : result ∈ results) : ∃ item, f item = .ok result := by
  induction h with
  | nil => cases hresult
  | cons hitem _ ih =>
      rcases List.mem_cons.mp hresult with rfl | hrest
      · exact ⟨_, hitem⟩
      · exact ih hrest

theorem exists_result_of_mem {f : β → Except ε α} {items : List β} {results : List α}
    (h : List.Forall₂ (fun item result => f item = .ok result) items results) {item : β}
    (hitem : item ∈ items) : ∃ result, f item = .ok result := by
  induction h with
  | nil => cases hitem
  | cons hresult _ ih =>
      rcases List.mem_cons.mp hitem with rfl | hrest
      · exact ⟨_, hresult⟩
      · exact ih hrest

/-- The results are those of the items, in whatever order. -/
structure Collects (f : β → Except ε α) (items : List β) (results : List α) : Prop where
  sound : ∀ result ∈ results, ∃ item ∈ items, f item = .ok result
  complete : ∀ item ∈ items, ∃ result ∈ results, f item = .ok result

theorem collects_of_mapM {f : β → Except ε α} {items : List β} {results : List α}
    (h : items.mapM f = .ok results) : Collects f items results := by
  induction mapM_ok_iff.mp h with
  | nil => constructor <;> simp
  | cons hitem hrest ih =>
      have hcollects := ih (mapM_ok_iff.mpr hrest)
      constructor
      · intro result hresult
        rcases List.mem_cons.mp hresult with rfl | hresult
        · exact ⟨_, List.mem_cons_self, hitem⟩
        · obtain ⟨item, hmem, hok⟩ := hcollects.sound result hresult
          exact ⟨item, List.mem_cons_of_mem _ hmem, hok⟩
      · intro item hmem
        rcases List.mem_cons.mp hmem with rfl | hmem
        · exact ⟨_, List.mem_cons_self, hitem⟩
        · obtain ⟨result, hresult, hok⟩ := hcollects.complete item hmem
          exact ⟨result, List.mem_cons_of_mem _ hresult, hok⟩

theorem Collects.congr {f : β → Except ε α} {items : List β} {results others : List α}
    (h : Collects f items results) (hsame : ∀ result, result ∈ others ↔ result ∈ results) :
    Collects f items others where
  sound result hresult := h.sound result ((hsame result).mp hresult)
  complete item hitem := by
    obtain ⟨result, hresult, hok⟩ := h.complete item hitem
    exact ⟨result, (hsame result).mpr hresult, hok⟩

/-- What every step of a loop keeps, the loop keeps. -/
theorem foldlM_invariant {P : α → Prop} {f : α → β → Except ε α} {items : List β}
    (hstep : ∀ item ∈ items, ∀ state next, P state → f state item = .ok next → P next) :
    ∀ {start final : α}, P start → items.foldlM f start = .ok final → P final := by
  induction items with
  | nil =>
      intro start final hstart h
      cases h
      exact hstart
  | cons item items ih =>
      intro start final hstart h
      rw [List.foldlM_cons] at h
      obtain ⟨next, hnext, hrest⟩ := bind_eq_ok.mp h
      have hkept := hstep item List.mem_cons_self start next hstart hnext
      exact ih (fun other hother => hstep other (List.mem_cons_of_mem _ hother)) hkept hrest

/-- What a step says of its item and later steps keep, holds of every item at the end. -/
theorem forall_of_foldlM {Q : β → α → Prop} {f : α → β → Except ε α} {items : List β}
    (hstep : ∀ item state next, f state item = .ok next → Q item next)
    (hkeep : ∀ other item state next, Q other state → f state item = .ok next → Q other next) :
    ∀ {start final : α}, items.foldlM f start = .ok final → ∀ item ∈ items, Q item final := by
  induction items with
  | nil => simp
  | cons item items ih =>
      intro start final h
      rw [List.foldlM_cons] at h
      obtain ⟨next, hnext, hrest⟩ := bind_eq_ok.mp h
      rw [List.forall_mem_cons]
      constructor
      · exact foldlM_invariant (fun other _ state next => hkeep item other state next)
          (hstep item start next hnext) hrest
      · exact ih hrest

/-- A loop that returns has taken every step. -/
theorem exists_step_of_foldlM {f : α → β → Except ε α} {items : List β} :
    ∀ {start final : α}, items.foldlM f start = .ok final →
      ∀ item ∈ items, ∃ state next, f state item = .ok next := by
  induction items with
  | nil => simp
  | cons item items ih =>
      intro start final h other hother
      rw [List.foldlM_cons] at h
      obtain ⟨next, hnext, hrest⟩ := bind_eq_ok.mp h
      rcases List.mem_cons.mp hother with rfl | hother
      · exact ⟨start, next, hnext⟩
      · exact ih hrest other hother

theorem map_eq_ok {g : α → β} {step : Except ε α} {b : β} :
    g <$> step = .ok b ↔ ∃ a, step = .ok a ∧ g a = b := by
  cases step <;> simp [Functor.map, Except.map]

theorem throwIf_eq_ok {condition : Prop} [Decidable condition] {error : ε} {done : Unit} :
    throwIf condition error = .ok done ↔ ¬ condition := by
  unfold throwIf
  split <;> simp_all [throw, throwThe, MonadExceptOf.throw, pure, Except.pure]

end CppContextEngine.Foundation
