import Mathlib.Data.List.Sort
import Mathlib.Data.String.Basic

/-!
# Dictionaries and sets keyed by text

A dictionary whose iteration order never shows (it is sorted before it leaves
the program) is a search tree, and equality of such tables is extensional.
A dictionary whose insertion order does show is an association list.
-/

namespace CppContextEngine.Foundation

/-- A dictionary that is only iterated in key order. -/
abbrev Table (β : Type) := Std.ExtTreeMap String β

/-- A set that is only iterated in sorted order. -/
abbrev Names := Std.ExtTreeSet String

/-! ## Last entry of a key -/

section LastBy

variable {β κ : Type} [DecidableEq κ] (key : β → κ)

/-- The entry that a dictionary comprehension over `items` keeps for `k`. -/
def lastBy (k : κ) (items : List β) : Option β :=
  items.reverse.find? fun item => key item = k

theorem lastBy_key {k : κ} {items : List β} {item : β} (h : lastBy key k items = some item) :
    key item = k := by
  simpa using List.find?_some h

theorem mem_of_lastBy {k : κ} {items : List β} {item : β}
    (h : lastBy key k items = some item) : item ∈ items :=
  List.mem_reverse.mp (List.mem_of_find?_eq_some h)

theorem lastBy_isSome_iff {k : κ} {items : List β} :
    (lastBy key k items).isSome ↔ ∃ item ∈ items, key item = k := by
  simp [lastBy, List.find?_isSome]

theorem lastBy_append (k : κ) (items more : List β) :
    lastBy key k (items ++ more) = (lastBy key k more).or (lastBy key k items) := by
  simp [lastBy]

theorem lastBy_cons (k : κ) (item : β) (items : List β) :
    lastBy key k (item :: items) =
      (lastBy key k items).or (if key item = k then some item else none) := by
  rw [← List.singleton_append, lastBy_append]
  by_cases hkey : key item = k <;> simp [lastBy, hkey]

theorem lastBy_of_nodup {items : List β} (hnodup : (items.map key).Nodup) {item : β}
    (hmem : item ∈ items) : lastBy key (key item) items = some item := by
  have hsome : (lastBy key (key item) items).isSome :=
    (lastBy_isSome_iff key).mpr ⟨item, hmem, rfl⟩
  obtain ⟨found, hfound⟩ := Option.isSome_iff_exists.mp hsome
  rw [hfound, List.inj_on_of_nodup_map hnodup (mem_of_lastBy key hfound) hmem
    (lastBy_key key hfound)]

end LastBy

/-- A search for something that occurs once finds it. -/
theorem find?_eq_some_iff_of_unique {β : Type} {p : β → Bool} {items : List β}
    (hunique : ∀ item ∈ items, ∀ other ∈ items, p item = true → p other = true → item = other)
    {item : β} : items.find? p = some item ↔ item ∈ items ∧ p item = true := by
  constructor
  · intro h
    exact ⟨List.mem_of_find?_eq_some h, List.find?_some h⟩
  · rintro ⟨hmem, hitem⟩
    obtain ⟨found, hfound⟩ : ∃ found, items.find? p = some found := by
      rw [← Option.isSome_iff_exists, List.find?_isSome]
      exact ⟨item, hmem, hitem⟩
    rw [hfound, hunique found (List.mem_of_find?_eq_some hfound) item hmem
      (List.find?_some hfound) hitem]

/-! ## Accumulating loops -/

/-- What a loop that only ever adds has collected at its end. -/
theorem foldl_adds {ι δ : Type} {P : δ → Prop} {Q : ι → Prop} {f : δ → ι → δ}
    (hstep : ∀ d i, P (f d i) ↔ P d ∨ Q i) (items : List ι) :
    ∀ d, P (items.foldl f d) ↔ P d ∨ ∃ i ∈ items, Q i := by
  induction items with
  | nil => simp
  | cons i items ih =>
      intro d
      rw [List.foldl_cons, ih, hstep]
      simp only [List.mem_cons, exists_eq_or_imp, or_assoc]

/-- A part of the state that a loop updates from itself alone. -/
theorem foldl_part {ι γ δ : Type} (part : δ → γ) (g : γ → ι → γ) {f : δ → ι → δ}
    (hstep : ∀ d i, part (f d i) = g (part d) i) (items : List ι) :
    ∀ d, part (items.foldl f d) = items.foldl g (part d) := by
  induction items with
  | nil => exact fun _ => rfl
  | cons i items ih =>
      intro d
      rw [List.foldl_cons, List.foldl_cons, ih, hstep]

/-! ## Tables -/

namespace Table

variable {β : Type}

@[simp] theorem getElem?_insert (t : Table β) (k a : String) (v : β) :
    (t.insert k v)[a]? = if k = a then some v else t[a]? := by
  rw [Std.ExtTreeMap.getElem?_insert]
  simp only [Std.compare_eq_iff_eq]

theorem insert_insert (t : Table β) (k : String) (v w : β) :
    (t.insert k v).insert k w = t.insert k w := by
  refine Std.ExtTreeMap.ext_getElem? fun a => ?_
  simp only [getElem?_insert]
  split <;> rfl

/-- The values in key order. -/
def items (t : Table β) : List β := t.toList.map Prod.snd

theorem mem_items {t : Table β} {v : β} : v ∈ t.items ↔ ∃ k : String, t[k]? = some v := by
  simp only [items, List.mem_map, Prod.exists, exists_eq_right,
    Std.ExtTreeMap.mem_toList_iff_getElem?_eq_some]

/-- Every value is filed under its own key. -/
def Keyed (key : β → String) (t : Table β) : Prop := ∀ k v, t[k]? = some v → key v = k

theorem Keyed.empty (key : β → String) : Keyed key (∅ : Table β) := by
  intro k v h
  simp at h

theorem Keyed.insert {key : β → String} {t : Table β} (h : Keyed key t) (v : β) :
    Keyed key (t.insert (key v) v) := by
  intro k w hw
  rw [getElem?_insert] at hw
  split at hw
  · cases hw
    assumption
  · exact h k w hw

theorem Keyed.mem_items {key : β → String} {t : Table β} (h : Keyed key t) {v : β} :
    v ∈ t.items ↔ t[key v]? = some v := by
  rw [Table.mem_items]
  constructor
  · rintro ⟨k, hk⟩
    rwa [h k v hk]
  · exact fun hv => ⟨_, hv⟩

/-- A table lists its values sorted by key. -/
theorem Keyed.items_sorted {key : β → String} {t : Table β} (h : Keyed key t) :
    (t.items.map key).Pairwise (· < ·) := by
  have hlt : t.toList.Pairwise fun a b => a.1 < b.1 :=
    t.ordered_keys_toList.imp fun hcmp => compare_lt_iff_lt.mp hcmp
  have hkeys : t.items.map key = t.toList.map Prod.fst := by
    simp only [items, List.map_map]
    refine List.map_congr_left fun entry hentry => ?_
    exact h entry.1 entry.2 (Std.ExtTreeMap.mem_toList_iff_getElem?_eq_some.mp hentry)
  rw [hkeys]
  exact List.pairwise_map.mpr hlt

/-- `for item in items: table[key(item)] = item`. -/
def put (key : β → String) (t : Table β) (items : List β) : Table β :=
  items.foldl (fun t item => t.insert (key item) item) t

@[simp] theorem put_nil (key : β → String) (t : Table β) : put key t [] = t := rfl

@[simp] theorem put_cons (key : β → String) (t : Table β) (item : β) (items : List β) :
    put key t (item :: items) = put key (t.insert (key item) item) items := rfl

theorem put_append (key : β → String) (t : Table β) (items more : List β) :
    put key t (items ++ more) = put key (put key t items) more :=
  List.foldl_append

theorem Keyed.put {key : β → String} {items : List β} : ∀ {t : Table β}, Keyed key t →
    Keyed key (Table.put key t items) := by
  induction items with
  | nil => exact fun h => h
  | cons item items ih => exact fun h => ih (h.insert item)

/-- A loop that files what it makes of each item keeps the last entry of a key. -/
theorem getElem?_foldl_insert {ι : Type} (key : ι → String) (make : ι → β) (items : List ι)
    (k : String) : ∀ t : Table β,
    (items.foldl (fun t item => t.insert (key item) (make item)) t)[k]? =
      ((lastBy key k items).map make).or t[k]? := by
  induction items with
  | nil => simp [lastBy]
  | cons item items ih =>
      intro t
      rw [List.foldl_cons, ih, getElem?_insert, ← List.singleton_append, lastBy_append,
        Option.map_or, Option.or_assoc]
      congr 1
      by_cases h : key item = k <;> simp [lastBy, h]

theorem getElem?_put (key : β → String) (items : List β) (k : String) (t : Table β) :
    (put key t items)[k]? = (lastBy key k items).or t[k]? := by
  rw [put, getElem?_foldl_insert key (fun item => item), Option.map_id_fun', id_eq]

theorem mem_items_put {key : β → String} {t : Table β} {items : List β} {v : β}
    (h : v ∈ (put key t items).items) : v ∈ t.items ∨ v ∈ items := by
  obtain ⟨k, hk⟩ := mem_items.mp h
  rw [getElem?_put, Option.or_eq_some_iff] at hk
  rcases hk with hk | ⟨-, hk⟩
  · exact .inr (mem_of_lastBy _ hk)
  · exact .inl (mem_items.mpr ⟨k, hk⟩)

@[simp] theorem items_empty : (∅ : Table β).items = [] := by
  simp [items]

/-- Of what all entries contribute, the part with one key's tag is that entry's own. -/
theorem filter_flatMap_items {γ : Type} {t : Table β} {contribution : β → List γ}
    {tag : γ → String} (htag : ∀ k v, t[k]? = some v → ∀ c ∈ contribution v, tag c = k)
    {k : String} {v : β} (hv : t[k]? = some v) :
    (t.items.flatMap contribution).filter (fun c => tag c = k) = contribution v := by
  have hmem : (k, v) ∈ t.toList := Std.ExtTreeMap.mem_toList_iff_getElem?_eq_some.mpr hv
  have hdistinct : t.toList.Pairwise fun a b => a.1 ≠ b.1 :=
    t.ordered_keys_toList.imp fun hcmp => (compare_lt_iff_lt.mp hcmp).ne
  have htag' : ∀ entry ∈ t.toList, ∀ c ∈ contribution entry.2, tag c = entry.1 :=
    fun entry hentry => htag entry.1 entry.2
      (Std.ExtTreeMap.mem_toList_iff_getElem?_eq_some.mp hentry)
  obtain ⟨before, after, hsplit⟩ := List.append_of_mem hmem
  rw [hsplit] at hdistinct htag'
  rw [List.pairwise_append, List.pairwise_cons] at hdistinct
  obtain ⟨-, ⟨hafter, -⟩, hbefore⟩ := hdistinct
  have hothers (entries : List (String × β)) (hsub : ∀ entry ∈ entries,
      entry ∈ before ++ (k, v) :: after) (hne : ∀ entry ∈ entries, entry.1 ≠ k) :
      ((entries.map Prod.snd).flatMap contribution).filter (fun c => tag c = k) = [] := by
    rw [List.filter_eq_nil_iff]
    intro c hc
    obtain ⟨value, hvalue, hc⟩ := List.mem_flatMap.mp hc
    obtain ⟨entry, hentry, rfl⟩ := List.mem_map.mp hvalue
    simpa [htag' entry (hsub entry hentry) c hc] using hne entry hentry
  have hown : (contribution v).filter (fun c => tag c = k) = contribution v :=
    List.filter_eq_self.mpr fun c hc => by
      simpa using htag' (k, v) (List.mem_append_right _ List.mem_cons_self) c hc
  rw [items, hsplit, List.map_append, List.map_cons, List.flatMap_append, List.flatMap_cons,
    List.filter_append, List.filter_append, hown, hothers before, hothers after]
  · simp
  · exact fun entry hentry => List.mem_append_right _ (List.mem_cons_of_mem _ hentry)
  · exact fun entry hentry => (hafter entry hentry).symm
  · exact fun entry hentry => List.mem_append_left _ hentry
  · exact fun entry hentry => hbefore entry hentry (k, v) List.mem_cons_self

theorem ext_getElem? {t t' : Table β} (h : ∀ k : String, t[k]? = t'[k]?) : t = t' :=
  Std.ExtTreeMap.ext_getElem? h

/-- `dict(entries)` -/
def ofEntries (entries : List (String × β)) : Table β :=
  entries.foldl (fun t entry => t.insert entry.1 entry.2) ∅

theorem ofEntries_toList (t : Table β) : ofEntries t.toList = t := by
  refine ext_getElem? fun k => ?_
  have hnodup : (t.toList.map Prod.fst).Nodup := by
    refine List.pairwise_map.mpr (t.ordered_keys_toList.imp fun hcmp => ?_)
    exact (compare_lt_iff_lt.mp hcmp).ne
  rw [ofEntries, getElem?_foldl_insert Prod.fst]
  cases hget : t[k]? with
  | some v =>
      have hmem := Std.ExtTreeMap.mem_toList_iff_getElem?_eq_some.mpr hget
      rw [lastBy_of_nodup Prod.fst hnodup hmem]
      rfl
  | none =>
      have habsent : lastBy Prod.fst k t.toList = none := by
        rw [← Option.not_isSome_iff_eq_none, lastBy_isSome_iff]
        rintro ⟨entry, hentry, rfl⟩
        rw [Std.ExtTreeMap.mem_toList_iff_getElem?_eq_some.mp hentry] at hget
        cases hget
      simp [habsent]

theorem mem_keys_iff {t : Table β} {k : String} : k ∈ t.keys ↔ ∃ v, t[k]? = some v := by
  rw [Std.ExtTreeMap.mem_keys, Std.ExtTreeMap.mem_iff_isSome_getElem?, Option.isSome_iff_exists]

theorem keys_eq_iff {t : Table β} {names : List String} (hsorted : names.Pairwise (· < ·)) :
    t.keys = names ↔ ∀ k, k ∈ names ↔ ∃ v, t[k]? = some v := by
  constructor
  · rintro rfl k
    exact mem_keys_iff
  · intro h
    have hkeys : t.keys.Pairwise (· < ·) :=
      t.ordered_keys.imp fun hcmp => compare_lt_iff_lt.mp hcmp
    refine List.Perm.eq_of_pairwise (fun a b _ _ hab hba => absurd (hab.trans hba) (lt_irrefl a))
      hkeys hsorted ?_
    refine (List.perm_ext_iff_of_nodup (hkeys.imp ne_of_lt) (hsorted.imp ne_of_lt)).mpr fun k => ?_
    rw [mem_keys_iff, h]

end Table

/-! ## Insertion-ordered dictionaries -/

section Upsert

variable {κ β : Type} [DecidableEq κ]

/-- `table[k] = v`: a present key keeps its position. -/
def upsert (entries : List (κ × β)) (k : κ) (v : β) : List (κ × β) :=
  if entries.any (fun entry => entry.1 = k) then
    entries.map fun entry => if entry.1 = k then (k, v) else entry
  else entries ++ [(k, v)]

theorem mem_upsert {entries : List (κ × β)} {k : κ} {v : β} {entry : κ × β}
    (h : entry ∈ upsert entries k v) : entry ∈ entries ∨ entry = (k, v) := by
  unfold upsert at h
  split at h
  · obtain ⟨old, hold, rfl⟩ := List.mem_map.mp h
    split
    · exact .inr rfl
    · exact .inl hold
  · simpa using h

theorem mem_keys_upsert {entries : List (κ × β)} {k other : κ} {v : β} :
    other ∈ (upsert entries k v).map Prod.fst ↔ other ∈ entries.map Prod.fst ∨ other = k := by
  unfold upsert
  split
  · rename_i hpresent
    have hkeys : (entries.map fun entry => if entry.1 = k then (k, v) else entry).map Prod.fst =
        entries.map Prod.fst := by
      rw [List.map_map]
      apply List.map_congr_left
      intro entry _
      by_cases hkey : entry.1 = k <;> simp [hkey]
    simp only [List.any_eq_true, decide_eq_true_eq] at hpresent
    obtain ⟨entry, hentry, rfl⟩ := hpresent
    rw [hkeys]
    constructor
    · exact .inl
    · rintro (hother | rfl)
      · exact hother
      · exact List.mem_map_of_mem hentry
  · simp

end Upsert

end CppContextEngine.Foundation
