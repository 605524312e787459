import CppContextEngine.Foundation.Winners

/-!
# Tables filled in another order

Filling a table does not depend on the order of what it is filled with, as long
as no two groups of rows share an identifier.  Steps that may raise are compared
by what they return.
-/

namespace CppContextEngine.Foundation

/-! ## Last entries -/

theorem lastBy_perm {β κ : Type} [DecidableEq κ] {key : β → κ} {items others : List β}
    (hperm : items.Perm others) (hnodup : (items.map key).Nodup) (k : κ) :
    lastBy key k items = lastBy key k others := by
  have hothers : (others.map key).Nodup := (hperm.map key).nodup_iff.mp hnodup
  cases hlast : lastBy key k items with
  | some item =>
      have hmem : item ∈ others := hperm.mem_iff.mp (mem_of_lastBy key hlast)
      rw [← lastBy_key key hlast, lastBy_of_nodup key hothers hmem]
  | none =>
      symm
      rw [← Option.not_isSome_iff_eq_none, lastBy_isSome_iff] at hlast ⊢
      rintro ⟨item, hitem, hkey⟩
      exact hlast ⟨item, hperm.mem_iff.mpr hitem, hkey⟩

/-! ## Groups of rows -/

section Groups

variable {β ι : Type} {id : β → String}

theorem Table.put_append_comm {rows others : List β}
    (hapart : ∀ row ∈ rows, ∀ other ∈ others, id row ≠ id other) (t : Table β) :
    t.put id (rows ++ others) = t.put id (others ++ rows) := by
  apply Table.ext_getElem?
  intro k
  rw [Table.getElem?_put, Table.getElem?_put, lastBy_append, lastBy_append]
  congr 1
  cases hrows : lastBy id k rows with
  | none => simp
  | some row =>
      cases hothers : lastBy id k others with
      | none => simp
      | some other =>
          have hsame : id row = id other :=
            (lastBy_key id hrows).trans (lastBy_key id hothers).symm
          exact absurd hsame (hapart row (mem_of_lastBy id hrows) other (mem_of_lastBy id hothers))

/-- The rows of two groups have no identifier in common. -/
def Apart (id : β → String) (rows : ι → List β) (a b : ι) : Prop :=
  ∀ row ∈ rows a, ∀ other ∈ rows b, id row ≠ id other

theorem Apart.symm {rows : ι → List β} {a b : ι} (h : Apart id rows a b) :
    Apart id rows b a := by
  intro row hrow other hother heq
  exact h other hother row hrow heq.symm

theorem Table.put_flatMap_perm {rows : ι → List β} {groups others : List ι}
    (hperm : groups.Perm others) :
    groups.Pairwise (Apart id rows) →
      ∀ t : Table β, t.put id (groups.flatMap rows) = t.put id (others.flatMap rows) := by
  induction hperm with
  | nil => exact fun _ _ => rfl
  | cons group _ ih =>
      intro hapart t
      rw [List.flatMap_cons, List.flatMap_cons, put_append, put_append,
        ih (List.pairwise_cons.mp hapart).2]
  | swap first second groups =>
      intro hapart t
      have hswap : Apart id rows second first :=
        (List.pairwise_cons.mp hapart).1 first List.mem_cons_self
      simp only [List.flatMap_cons]
      rw [← List.append_assoc, ← List.append_assoc, put_append id t (rows second ++ rows first),
        put_append_comm hswap, ← put_append]
  | trans hfirst _ ih ih' =>
      intro hapart t
      rw [ih hapart, ih' (hfirst.pairwise hapart Apart.symm)]

end Groups

/-! ## What a fallible step returns -/

section Returned

variable {ε α β : Type}

theorem toOption_bind (first : Except ε α) (next : α → Except ε β) :
    (first >>= next).toOption = first.toOption.bind fun a => (next a).toOption := by
  cases first <;> rfl

theorem toOption_map (f : α → β) (first : Except ε α) :
    (first.map f).toOption = first.toOption.map f := by
  cases first <;> rfl

theorem toOption_foldlM {δ ι : Type} (step step' : δ → ι → Except ε δ) {items : List ι}
    (h : ∀ d, ∀ item ∈ items, (step d item).toOption = (step' d item).toOption) :
    ∀ d, (items.foldlM step d).toOption = (items.foldlM step' d).toOption := by
  induction items with
  | nil => exact fun _ => rfl
  | cons item items ih =>
      intro d
      rw [List.foldlM_cons, List.foldlM_cons, toOption_bind, toOption_bind,
        h d item List.mem_cons_self]
      congr 1
      funext d'
      exact ih (fun d other hother => h d other (List.mem_cons_of_mem _ hother)) d'

end Returned

/-! ## Fallible groups of rows -/

section Writers

variable {β ε ι : Type} {id : β → String}

/-- Every row that is returned satisfies `P`. -/
def Returns (P : β → Prop) (rows : Except ε (List β)) : Prop :=
  ∀ returned, rows = .ok returned → ∀ row ∈ returned, P row

theorem Returns.andThen {P : β → Prop} {rows more : Except ε (List β)} (h : Returns P rows)
    (h' : Returns P more) : Returns P (andThen rows more) := by
  intro returned hreturned row hrow
  obtain ⟨first, hfirst, hreturned⟩ := bind_eq_ok.mp hreturned
  obtain ⟨second, hsecond, hreturned⟩ := bind_eq_ok.mp hreturned
  cases hreturned
  rcases List.mem_append.mp hrow with hrow | hrow
  · exact h first hfirst row hrow
  · exact h' second hsecond row hrow

theorem Returns.mapM {P : β → Prop} {make : ι → Except ε β}
    (h : ∀ item row, make item = .ok row → P row) (items : List ι) :
    Returns P (items.mapM make) := by
  intro returned hreturned row hrow
  obtain ⟨item, hitem⟩ := exists_of_mem_results (mapM_ok_iff.mp hreturned) hrow
  exact h item row hitem

theorem Returns.reduceOption {P : β → Prop} {make : ι → Except ε (Option β)}
    (h : ∀ item row, make item = .ok (some row) → P row) (items : List ι) :
    Returns P ((items.mapM make).map List.reduceOption) := by
  intro returned hreturned row hrow
  obtain ⟨item, hitem⟩ := exists_of_mem_chosen hreturned hrow
  exact h item row hitem

/-- The rows that are returned for two groups have no identifier in common. -/
def ReturnsApart (id : β → String) (rows : ι → Except ε (List β)) (a b : ι) : Prop :=
  ∀ returned, rows a = .ok returned → ∀ others, rows b = .ok others →
    ∀ row ∈ returned, ∀ other ∈ others, id row ≠ id other

theorem ReturnsApart.symm {rows : ι → Except ε (List β)} {a b : ι}
    (h : ReturnsApart id rows a b) : ReturnsApart id rows b a := by
  intro returned hreturned others hothers row hrow other hother heq
  exact h others hothers returned hreturned other hother row hrow heq.symm

theorem andThen_swap {rows : ι → Except ε (List β)} {a b : ι} (h : ReturnsApart id rows a b)
    (more : Except ε (List β)) :
    StoresAlike id (andThen (rows a) (andThen (rows b) more))
      (andThen (rows b) (andThen (rows a) more)) := by
  intro t
  simp only [map_andThen_toOption]
  cases ha : rows a with
  | error error => cases rows b <;> rfl
  | ok first =>
      cases hb : rows b with
      | error error => rfl
      | ok second =>
          have hswap : (t.put id first).put id second = (t.put id second).put id first := by
            rw [← Table.put_append, ← Table.put_append,
              Table.put_append_comm (h first ha second hb)]
          simp only [Except.map, Except.toOption, Option.bind_some, hswap]

theorem StoresAlike.flatten_mapM_perm {rows : ι → Except ε (List β)} {groups others : List ι}
    (hperm : groups.Perm others) :
    groups.Pairwise (ReturnsApart id rows) →
      StoresAlike id (List.flatten <$> groups.mapM rows) (List.flatten <$> others.mapM rows) := by
  induction hperm with
  | nil => exact fun _ => .refl _
  | cons group _ ih =>
      intro hapart
      rw [flatten_mapM_cons, flatten_mapM_cons]
      exact .andThen (.refl _) (ih (List.pairwise_cons.mp hapart).2)
  | swap first second groups =>
      intro hapart
      simp only [flatten_mapM_cons]
      exact andThen_swap ((List.pairwise_cons.mp hapart).1 first List.mem_cons_self) _
  | trans hfirst _ ih ih' =>
      intro hapart
      exact (ih hapart).trans (ih' (hfirst.pairwise hapart ReturnsApart.symm))

end Writers

end CppContextEngine.Foundation
