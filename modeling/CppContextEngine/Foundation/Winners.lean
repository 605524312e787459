import Mathlib.Data.List.Find
import Mathlib.Data.List.Induction
import Mathlib.Data.List.ReduceOption
import CppContextEngine.Foundation.Fallible
import CppContextEngine.Foundation.Table

/-!
# Winners of a key

A loop that makes a row of every item and files it under the row's identifier
may first keep only the last item of each key, when keys and identifiers
determine each other.  Making a row may fail, and then it fails for every item.
-/

namespace CppContextEngine.Foundation

/-! ## The dictionary of winners -/

section Winners

variable {κ β : Type} [DecidableEq κ]

/-- `dict(entries)`, with the keys in order of first appearance. -/
def winners (entries : List (κ × β)) : List (κ × β) :=
  entries.foldl (fun found entry => upsert found entry.1 entry.2) []

theorem mem_upsert_iff {found : List (κ × β)} {k : κ} {v : β} {entry : κ × β} :
    entry ∈ upsert found k v ↔ if entry.1 = k then entry = (k, v) else entry ∈ found := by
  unfold upsert
  by_cases hpresent : found.any (fun old => old.1 = k) = true
  · rw [if_pos hpresent]
    obtain ⟨old, hold, hkey⟩ := List.any_eq_true.mp hpresent
    by_cases hentry : entry.1 = k
    · rw [if_pos hentry, List.mem_map]
      constructor
      · rintro ⟨other, -, rfl⟩
        by_cases hother : other.1 = k
        · rw [if_pos hother]
        · rw [if_neg hother] at hentry
          exact absurd hentry hother
      · rintro rfl
        exact ⟨old, hold, if_pos (of_decide_eq_true hkey)⟩
    · rw [if_neg hentry, List.mem_map]
      constructor
      · rintro ⟨other, hother, rfl⟩
        by_cases hkey : other.1 = k
        · simp [hkey] at hentry
        · rwa [if_neg hkey]
      · exact fun hmem => ⟨entry, hmem, by rw [if_neg hentry]⟩
  · rw [if_neg hpresent]
    have habsent : ∀ old ∈ found, old.1 ≠ k := fun old hold hkey =>
      hpresent (List.any_eq_true.mpr ⟨old, hold, decide_eq_true hkey⟩)
    by_cases hentry : entry.1 = k
    · rw [if_pos hentry, List.mem_append, List.mem_singleton]
      exact or_iff_right fun hmem => habsent entry hmem hentry
    · rw [if_neg hentry, List.mem_append, List.mem_singleton]
      apply or_iff_left
      rintro rfl
      exact hentry rfl

theorem upsert_keys_nodup {found : List (κ × β)} (h : (found.map Prod.fst).Nodup) (k : κ)
    (v : β) : ((upsert found k v).map Prod.fst).Nodup := by
  unfold upsert
  split
  · have hkeys : (found.map fun entry => if entry.1 = k then (k, v) else entry).map Prod.fst =
        found.map Prod.fst := by
      rw [List.map_map]
      apply List.map_congr_left
      intro entry _
      by_cases hentry : entry.1 = k <;> simp [hentry]
    rwa [hkeys]
  · rename_i habsent
    have hfresh : k ∉ found.map Prod.fst := by
      rw [List.mem_map]
      rintro ⟨old, hold, hkey⟩
      exact habsent (List.any_eq_true.mpr ⟨old, hold, decide_eq_true hkey⟩)
    rw [List.map_append, List.map_singleton]
    exact List.nodup_append_comm.mp (List.nodup_cons.mpr ⟨hfresh, h⟩)

theorem winners_append_singleton (entries : List (κ × β)) (entry : κ × β) :
    winners (entries ++ [entry]) = upsert (winners entries) entry.1 entry.2 := by
  simp [winners]

theorem winners_keys_nodup (entries : List (κ × β)) :
    ((winners entries).map Prod.fst).Nodup := by
  induction entries using List.reverseRec with
  | nil => simp [winners]
  | append_singleton entries entry ih =>
      rw [winners_append_singleton]
      exact upsert_keys_nodup ih entry.1 entry.2

/-- An entry wins when it is the last one of its key. -/
theorem mem_winners {entries : List (κ × β)} {entry : κ × β} :
    entry ∈ winners entries ↔ lastBy Prod.fst entry.1 entries = some entry := by
  induction entries using List.reverseRec with
  | nil => simp [winners, lastBy]
  | append_singleton entries last ih =>
      rw [winners_append_singleton, mem_upsert_iff, ih, lastBy_append]
      by_cases hkey : entry.1 = last.1
      · simp [lastBy, hkey, eq_comm]
      · simp [lastBy, hkey, Ne.symm hkey]

theorem winners_subset {entries : List (κ × β)} {entry : κ × β} (h : entry ∈ winners entries) :
    entry ∈ entries :=
  mem_of_lastBy Prod.fst (mem_winners.mp h)

theorem winners_eq_nil {entries : List (κ × β)} : winners entries = [] ↔ entries = [] := by
  constructor
  · intro h
    rw [List.eq_nil_iff_forall_not_mem]
    intro entry hentry
    obtain ⟨last, hlast⟩ := Option.isSome_iff_exists.mp
      ((lastBy_isSome_iff Prod.fst).mpr ⟨entry, hentry, rfl⟩ :
        (lastBy Prod.fst entry.1 entries).isSome)
    have hwins : last ∈ winners entries := by
      rw [mem_winners, lastBy_key Prod.fst hlast, hlast]
    simp [h] at hwins
  · rintro rfl
    rfl

end Winners

/-! ## Rows made of the winners -/

section Rows

variable {κ β γ : Type} [DecidableEq κ] {id : γ → String}

/-- Overwriting by identifier keeps what overwriting by key has kept. -/
theorem Table.put_winners {row : κ × β → γ} {entries : List (κ × β)}
    (hid : ∀ a ∈ entries, ∀ b ∈ entries, a.1 = b.1 ↔ id (row a) = id (row b)) (t : Table γ) :
    t.put id ((winners entries).map row) = t.put id (entries.map row) := by
  apply Table.ext_getElem?
  intro k
  rw [Table.getElem?_put, Table.getElem?_put]
  congr 1
  cases hlast : lastBy id k (entries.map row) with
  | none =>
      rw [← Option.not_isSome_iff_eq_none, lastBy_isSome_iff] at hlast ⊢
      rintro ⟨made, hmade, hkey⟩
      obtain ⟨entry, hentry, rfl⟩ := List.mem_map.mp hmade
      exact hlast ⟨row entry, List.mem_map_of_mem (winners_subset hentry), hkey⟩
  | some made =>
      have hfind : (lastBy (fun entry => id (row entry)) k entries).map row = some made := by
        rw [← hlast, lastBy, lastBy, ← List.map_reverse, List.find?_map]
        rfl
      obtain ⟨last, hfound, rfl⟩ := Option.map_eq_some_iff.mp hfind
      have hmem : last ∈ entries := mem_of_lastBy _ hfound
      have hk : id (row last) = k := lastBy_key (fun entry => id (row entry)) hfound
      -- among the entries, having the last one's key is having its identifier
      have hwins : last ∈ winners entries := by
        rw [mem_winners, ← hfound, lastBy, lastBy]
        apply List.find?_congr
        intro entry hentry
        simp only [decide_eq_decide]
        rw [← hk]
        exact hid entry (List.mem_reverse.mp hentry) last hmem
      have hsome : (lastBy id k ((winners entries).map row)).isSome := by
        rw [lastBy_isSome_iff]
        exact ⟨row last, List.mem_map_of_mem hwins, hk⟩
      obtain ⟨other, hother⟩ := Option.isSome_iff_exists.mp hsome
      obtain ⟨entry, hentry, rfl⟩ := List.mem_map.mp (mem_of_lastBy id hother)
      have hkey : entry.1 = last.1 :=
        (hid entry (winners_subset hentry) last hmem).mpr ((lastBy_key id hother).trans hk.symm)
      rw [hother, List.inj_on_of_nodup_map (winners_keys_nodup entries) hentry hwins hkey]

variable {ε : Type}

theorem mapM_error {make : β → Except ε γ} {error : ε} {items : List β} (hne : items ≠ [])
    (h : ∀ item ∈ items, make item = .error error) : items.mapM make = .error error := by
  cases items with
  | nil => exact absurd rfl hne
  | cons item items =>
      rw [List.mapM_cons, h item List.mem_cons_self]
      rfl

/-- Making a row of every entry of `entries` succeeds, or fails in one way. -/
def Uniform (make : β → Except ε γ) (items : List β) : Prop :=
  (∀ item ∈ items, ∃ row, make item = .ok row) ∨
    ∃ error, ∀ item ∈ items, make item = .error error

theorem put_mapM_winners {make : κ × β → Except ε γ} {entries : List (κ × β)}
    (huniform : Uniform make entries)
    (hid : ∀ a ∈ entries, ∀ b ∈ entries, ∀ rowA rowB, make a = .ok rowA → make b = .ok rowB →
      (a.1 = b.1 ↔ id rowA = id rowB)) (t : Table γ) :
    ((winners entries).mapM make).map (t.put id) = (entries.mapM make).map (t.put id) := by
  rcases huniform with hok | ⟨error, herror⟩
  · cases entries with
    | nil => rfl
    | cons first rest =>
        obtain ⟨sample, -⟩ := hok first List.mem_cons_self
        have : Nonempty γ := ⟨sample⟩
        choose! row hrow using hok
        have hrows {items : List (κ × β)} (hsub : ∀ item ∈ items, item ∈ first :: rest) :
            items.mapM make = .ok (items.map row) := by
          rw [mapM_ok_iff, List.forall₂_map_right_iff, List.forall₂_same]
          exact fun item hitem => hrow item (hsub item hitem)
        rw [hrows fun _ h => winners_subset h, hrows fun _ h => h]
        simp only [Except.map]
        rw [Table.put_winners fun a ha b hb => hid a ha b hb _ _ (hrow a ha) (hrow b hb)]
  · by_cases hnil : entries = []
    · rw [hnil]
      rfl
    · rw [mapM_error hnil herror,
        mapM_error (fun h => hnil (winners_eq_nil.mp h)) fun item h => herror item (winners_subset h)]

end Rows

/-! ## Choosing before making -/

section Chosen

variable {ι β γ ε δ : Type}

/-- The items that `choose` selects, or its first error. -/
def collectChosen (choose : ι → Except ε (Option β)) (items : List ι) : Except ε (List β) :=
  (items.mapM choose).map List.reduceOption

/-- What is made of an item that `choose` selects. -/
def makeChosen (choose : ι → Except ε (Option β)) (make : β → Except ε γ) (item : ι) :
    Except ε (Option γ) :=
  match choose item with
  | .error error => .error error
  | .ok none => .ok none
  | .ok (some chosen) => (make chosen).map some

theorem collectChosen_cons (choose : ι → Except ε (Option β)) (item : ι) (items : List ι) :
    collectChosen choose (item :: items) = (do
      let chosen ← choose item
      let rest ← collectChosen choose items
      return chosen.toList ++ rest) := by
  unfold collectChosen
  rw [List.mapM_cons]
  cases choose item with
  | error error => rfl
  | ok chosen =>
      cases items.mapM choose with
      | error error => rfl
      | ok rest => cases chosen <;> rfl

theorem exists_of_mem_chosen {choose : ι → Except ε (Option β)} {items : List ι}
    {found : List β} (h : collectChosen choose items = .ok found) {chosen : β}
    (hmem : chosen ∈ found) : ∃ item, choose item = .ok (some chosen) := by
  unfold collectChosen at h
  cases hresults : items.mapM choose with
  | error error =>
      rw [hresults] at h
      cases h
  | ok results =>
      rw [hresults] at h
      cases h
      exact exists_of_mem_results (mapM_ok_iff.mp hresults) (List.reduceOption_mem_iff.mp hmem)

/-- Accumulating while choosing is accumulating what was chosen. -/
theorem foldlM_chosen (choose : ι → Except ε (Option β)) (add : δ → β → δ) (items : List ι) :
    ∀ start : δ, items.foldlM (fun found item => (choose item).map fun chosen =>
        chosen.elim found (add found)) start =
      (collectChosen choose items).map fun chosen => chosen.foldl add start := by
  induction items with
  | nil => exact fun _ => rfl
  | cons item items ih =>
      intro start
      rw [List.foldlM_cons, collectChosen_cons]
      cases choose item with
      | error error => rfl
      | ok chosen =>
          change items.foldlM _ (chosen.elim start (add start)) = _
          rw [ih]
          cases collectChosen choose items <;> cases chosen <;> rfl

/-- Made one by one or all at the end: the same rows, or an error in both. -/
theorem mapM_makeChosen_toOption (choose : ι → Except ε (Option β)) (make : β → Except ε γ)
    (items : List ι) :
    ((items.mapM (makeChosen choose make)).map List.reduceOption).toOption =
      (collectChosen choose items >>= fun chosen => chosen.mapM make).toOption := by
  induction items with
  | nil => rfl
  | cons item items ih =>
      rw [List.mapM_cons, collectChosen_cons, makeChosen]
      cases choose item with
      | error error => rfl
      | ok chosen =>
          cases chosen with
          | none =>
              have hleft : ((do
                  let made ← (.ok none : Except ε (Option γ))
                  let rest ← items.mapM (makeChosen choose make)
                  pure (made :: rest)).map List.reduceOption).toOption =
                  ((items.mapM (makeChosen choose make)).map List.reduceOption).toOption := by
                cases items.mapM (makeChosen choose make) <;> rfl
              refine hleft.trans (ih.trans ?_)
              cases collectChosen choose items <;> rfl
          | some entry =>
              cases hmake : make entry with
              | error error =>
                  simp only [hmake]
                  cases collectChosen choose items with
                  | error error => rfl
                  | ok rest =>
                      change none = ((entry :: rest).mapM make).toOption
                      rw [List.mapM_cons, hmake]
                      rfl
              | ok row =>
                  have hleft : ((do
                      let made ← (Except.ok row : Except ε γ).map some
                      let rest ← items.mapM (makeChosen choose make)
                      pure (made :: rest)).map List.reduceOption).toOption =
                      ((items.mapM (makeChosen choose make)).map
                        List.reduceOption).toOption.map (List.cons row) := by
                    cases items.mapM (makeChosen choose make) <;> rfl
                  simp only [hmake]
                  refine hleft.trans ((congrArg _ ih).trans ?_)
                  cases collectChosen choose items with
                  | error error => rfl
                  | ok rest =>
                      change (rest.mapM make).toOption.map _ = ((entry :: rest).mapM make).toOption
                      rw [List.mapM_cons, hmake]
                      cases rest.mapM make <;> rfl

end Chosen

/-! ## Fallible writers -/

section Writers

variable {β ε : Type} {id : β → String}

/-- Two writers file the same rows into every table, or both fail. -/
def StoresAlike (id : β → String) (rows others : Except ε (List β)) : Prop :=
  ∀ t : Table β, (rows.map (t.put id)).toOption = (others.map (t.put id)).toOption

theorem StoresAlike.of_eq {rows others : Except ε (List β)}
    (h : ∀ t : Table β, rows.map (t.put id) = others.map (t.put id)) :
    StoresAlike id rows others := by
  intro t
  rw [h t]

theorem StoresAlike.refl (rows : Except ε (List β)) : StoresAlike id rows rows := by
  intro t
  simp

theorem StoresAlike.trans {rows others more : Except ε (List β)}
    (h : StoresAlike id rows others) (h' : StoresAlike id others more) :
    StoresAlike id rows more := by
  intro t
  rw [h t, h' t]

/-- Writing one after the other. -/
def andThen (rows more : Except ε (List β)) : Except ε (List β) := do
  let rows ← rows
  let more ← more
  return rows ++ more

theorem map_andThen_toOption (rows more : Except ε (List β)) (t : Table β) :
    ((andThen rows more).map (t.put id)).toOption =
      (rows.map (t.put id)).toOption.bind fun t => (more.map (t.put id)).toOption := by
  cases rows <;> cases more <;> simp [andThen, Except.map, Except.toOption, bind, Except.bind,
    pure, Except.pure, Table.put_append]

theorem StoresAlike.andThen {rows others more more' : Except ε (List β)}
    (h : StoresAlike id rows others) (h' : StoresAlike id more more') :
    StoresAlike id (andThen rows more) (andThen others more') := by
  intro t
  rw [map_andThen_toOption, map_andThen_toOption, h t]
  congr 1
  funext t
  exact h' t

theorem flatten_mapM_cons {ι : Type} (f : ι → Except ε (List β)) (item : ι) (items : List ι) :
    List.flatten <$> (item :: items).mapM f = andThen (f item) (List.flatten <$> items.mapM f) := by
  rw [List.mapM_cons]
  cases f item with
  | error error => rfl
  | ok rows => cases items.mapM f <;> rfl

theorem StoresAlike.flatten_mapM {ι : Type} {f g : ι → Except ε (List β)} {items : List ι}
    (h : ∀ item ∈ items, StoresAlike id (f item) (g item)) :
    StoresAlike id (List.flatten <$> items.mapM f) (List.flatten <$> items.mapM g) := by
  induction items with
  | nil => exact .refl _
  | cons item items ih =>
      rw [flatten_mapM_cons, flatten_mapM_cons]
      apply StoresAlike.andThen
      · exact h item List.mem_cons_self
      · exact ih fun other hother => h other (List.mem_cons_of_mem _ hother)

end Writers

end CppContextEngine.Foundation
