import CppContextEngine.Ingestion.BatchBuilder

/-!
# What a look-up finds

The keys of a dictionary are entered by one loop over facts, and the rows are
made from the same facts.  So a key that is found has a row, with the id that
the look-up returns and with the owner that the dictionary holds.
-/

namespace CppContextEngine.Ingestion

open CppContextEngine.Foundation CppContextEngine.Models

/-! ## Looking up -/

/-- A table has an id, with its owner. -/
def Filed (table : Table Owned) (id owner : Identifier) : Prop :=
  ∃ key : String, table[key]? = some { id, owner }

theorem known_eq_ok {α : Type} {message : String} {table : Table α} {key : String} {value : α} :
    known message table key = .ok value ↔ table[key]? = some value := by
  unfold known
  cases table[key]? <;> simp [protocolError]

theorem known_owned {message : String} {table : Table Owned} {key : String} {id : Identifier} :
    Owned.id <$> known message table key = .ok id ↔
      ∃ owner, table[key]? = some { id, owner } := by
  rw [map_eq_ok]
  constructor
  · rintro ⟨owned, hknown, rfl⟩
    exact ⟨owned.owner, known_eq_ok.mp hknown⟩
  · rintro ⟨owner, hget⟩
    exact ⟨_, known_eq_ok.mpr hget, rfl⟩

theorem ownerOf_eq_some {table : Table Owned} {key : String} {owner : Identifier} :
    ownerOf table key = some owner ↔ ∃ id, table[key]? = some { id, owner } := by
  unfold ownerOf
  rw [Option.map_eq_some_iff]
  constructor
  · rintro ⟨owned, hget, rfl⟩
    exact ⟨owned.id, hget⟩
  · rintro ⟨id, hget⟩
    exact ⟨_, hget, rfl⟩

/-- A key whose owner was checked is held with that owner. -/
theorem filed_of_known {message : String} {table : Table Owned} {key : String}
    {id owner : Identifier} (hknown : Owned.id <$> known message table key = .ok id)
    (howner : ownerOf table key = some owner) : Filed table id owner := by
  obtain ⟨other, hget⟩ := known_owned.mp hknown
  obtain ⟨otherId, hsame⟩ := ownerOf_eq_some.mp howner
  rw [hget] at hsame
  cases hsame
  exact ⟨key, hget⟩

/-- A reference whose owner was checked. -/
theorem filed_of_reference {message : String} {table : Table Owned} {fact : Record}
    {name key : String} {id owner : Identifier}
    (hid : (fact.string name >>= fun key => Owned.id <$> known message table key) = .ok id)
    (hkey : fact.string name = .ok key) (howner : ownerOf table key = some owner) :
    Filed table id owner := by
  obtain ⟨other, hother, hknown⟩ := bind_eq_ok.mp hid
  rw [hkey] at hother
  cases hother
  exact filed_of_known hknown howner

/-- A reference is to something that a table has. -/
theorem exists_filed_of_reference {message : String} {table : Table Owned} {fact : Record}
    {name : String} {id : Identifier}
    (hid : (fact.string name >>= fun key => Owned.id <$> known message table key) = .ok id) :
    ∃ owner, Filed table id owner := by
  obtain ⟨key, -, hknown⟩ := bind_eq_ok.mp hid
  obtain ⟨owner, hget⟩ := known_owned.mp hknown
  exact ⟨owner, key, hget⟩

/-- The key of a fact refers to what is entered under it. -/
theorem id_of_reference {message : String} {table : Table Owned} {fact : Record}
    {name key : String} {id : Identifier} {owned : Owned}
    (hid : (fact.string name >>= fun key => Owned.id <$> known message table key) = .ok id)
    (hkey : fact.string name = .ok key) (hget : table[key]? = some owned) : id = owned.id := by
  obtain ⟨other, hother, hknown⟩ := bind_eq_ok.mp hid
  rw [hkey] at hother
  cases hother
  obtain ⟨owner, hsome⟩ := known_owned.mp hknown
  rw [hget] at hsome
  cases hsome
  rfl

/-- A table of ids has an id. -/
def FiledId (table : Table Identifier) (id : Identifier) : Prop :=
  ∃ key : String, table[key]? = some id

theorem filedId_of_reference {message : String} {table : Table Identifier} {fact : Record}
    {name : String} {id : Identifier} (hid : fact.string name >>= known message table = .ok id) :
    FiledId table id := by
  obtain ⟨key, -, hknown⟩ := bind_eq_ok.mp hid
  exact ⟨key, known_eq_ok.mp hknown⟩

theorem knownIfGiven_some {find : String → Except IngestError Identifier} {key : Option String}
    {found : Option Identifier} (h : knownIfGiven find key = .ok found) {id : Identifier}
    (hid : id ∈ found) : ∃ text, key = some text ∧ text ≠ "" ∧ find text = .ok id := by
  cases key with
  | none =>
      cases h
      cases hid
  | some text =>
      simp only [knownIfGiven] at h
      split at h
      · cases h
        cases hid
      · rename_i hgiven
        obtain ⟨found, hfound, rfl⟩ := map_eq_ok.mp h
        cases hid
        exact ⟨text, rfl, hgiven, hfound⟩

/-! ## Filling -/

section Filling

variable {α : Type} {facts : List Record} {entry : Record → Except IngestError (String × α)}
  {table : Table α}

/-- What a filled table holds was entered for one of the facts. -/
theorem entry_of_fillTable (h : fillTable facts entry = .ok table) :
    ∀ (key : String) (value : α), table[key]? = some value →
      ∃ fact ∈ facts, entry fact = .ok (key, value) := by
  apply foldlM_invariant ?_ ?_ h
  · intro fact hfact state next hstate hstep key value hvalue
    obtain ⟨item, hitem, hnext⟩ := bind_eq_ok.mp hstep
    cases hnext
    rw [Table.getElem?_insert] at hvalue
    split at hvalue
    · rename_i hkey
      cases hvalue
      exact ⟨fact, hfact, hkey ▸ hitem⟩
    · exact hstate key value hvalue
  · intro key value hvalue
    simp at hvalue

/-- Every fact has been entered. -/
theorem exists_entry_of_fillTable (h : fillTable facts entry = .ok table) :
    ∀ fact ∈ facts, ∃ item, entry fact = .ok item := by
  intro fact hfact
  obtain ⟨state, next, hstep⟩ := exists_step_of_foldlM h fact hfact
  obtain ⟨item, hitem, -⟩ := bind_eq_ok.mp hstep
  exact ⟨item, hitem⟩

end Filling

/-! ## Rows -/

/-- Everything in a table has a row with its id and its owner. -/
def Shown {ρ : Type} (table : Table Owned) (rows : List ρ) (id owner : ρ → Identifier) : Prop :=
  ∀ rowId rowOwner, Filed table rowId rowOwner →
    ∃ row ∈ rows, id row = rowId ∧ owner row = rowOwner

/-- Rows that are made from the facts that filled a table show it. -/
theorem shown_of_fillTable {ρ : Type} {facts : List Record} {table : Table Owned}
    {entry : Record → Except IngestError (String × Owned)} {row : Record → Except IngestError ρ}
    {rows : List ρ} {id owner : ρ → Identifier} (hfill : fillTable facts entry = .ok table)
    (hrows : Collects row facts rows)
    (hagree : ∀ fact key owned made, entry fact = .ok (key, owned) →
      table[key]? = some owned → row fact = .ok made →
        id made = owned.id ∧ owner made = owned.owner) :
    Shown table rows id owner := by
  rintro rowId rowOwner ⟨key, hget⟩
  obtain ⟨fact, hfact, hentry⟩ := entry_of_fillTable hfill key _ hget
  obtain ⟨made, hmade, hrow⟩ := hrows.complete fact hfact
  exact ⟨made, hmade, hagree fact key _ made hentry hget hrow⟩

theorem fromRaw_eq_ok [NativeLibrary] {α : Type} {tables : FactTables}
    {row : Record → Except IngestError α} {raw : Record} {made : α} :
    tables.fromRaw row raw = .ok made ↔
      ∃ fact, tables.restored raw = .ok fact ∧ row fact = .ok made := by
  unfold FactTables.fromRaw
  rw [bind_eq_ok]

/-- The rows of a pass, once they are sorted. -/
theorem collects_sortBy {α β κ ε : Type} [LinearOrder κ] {f : β → Except ε α} {items : List β}
    {results : List α} (key : α → κ) (h : items.mapM f = .ok results) :
    Collects f items (sortBy key results) :=
  (collects_of_mapM h).congr fun _ => mem_sortBy key

end CppContextEngine.Ingestion
