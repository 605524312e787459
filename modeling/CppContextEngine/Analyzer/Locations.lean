import Mathlib.Data.List.Infix
import CppContextEngine.Analyzer.DataFlow

/-!
# Memory locations

The keys under which the analyzer keeps storage.  Naming an lvalue enters its
location, and those it is derived from, into a table of bounded size; once it
has been named, naming it again gives the same key and leaves the table alone.
-/

namespace CppContextEngine.Analyzer

/-- `kDataFlowMaxAccessPathDepth` -/
def dataFlowMaxAccessPathDepth : Nat := 8

/-- `kDataFlowMaxLocations` -/
def dataFlowMaxLocations : Nat := 4096

/-! ## Keys -/

inductive LocationKey where
  | unknown
  | this
  | returned
  | callReturn (offset : Nat)
  | declaration (key : String)
  | dereference (base : LocationKey)
  | field (base : LocationKey) (field : String)
  deriving DecidableEq, Repr

def LocationKey.text (analysis : String) : LocationKey → String
  | .unknown => analysis ++ ":memory:unknown"
  | .this => analysis ++ ":memory:this"
  | .returned => analysis ++ ":memory:return"
  | .callReturn offset => analysis ++ ":memory:call-return:" ++ toString offset
  | .declaration key => analysis ++ ":memory:decl:" ++ key
  | .dereference base => analysis ++ ":memory:deref:" ++ base.text analysis
  | .field base name => analysis ++ ":memory:field:" ++ base.text analysis ++ ":" ++ name

/-- What `qualifyLocation` reads of a type. -/
structure TypeInfo where
  name : String := ""
  tracksPointsTo : Bool := false
  deriving DecidableEq, Repr

/-- `MemoryLocationRecord`, without the fields that are only emitted. -/
structure MemoryLocation where
  kind : String
  type : TypeInfo
  accessPath : List String := []
  deriving DecidableEq, Repr

/-- `locations` -/
abbrev Locations := List (LocationKey × MemoryLocation)

namespace Locations

/-- `locations.at(key).accessPath` -/
def pathOf (locations : Locations) (key : LocationKey) : List String :=
  ((locations.lookup key).map MemoryLocation.accessPath).getD []

/-- Enter a location unless the table is full. -/
def emplace (locations : Locations) (key : LocationKey) (record : MemoryLocation) :
    LocationKey × Locations :=
  if dataFlowMaxLocations ≤ locations.length then (.unknown, locations)
  else (key, locations ++ [(key, record)])

/-- `addDerivedLocation` -/
def addDerivedLocation (locations : Locations) (key : LocationKey) (record : MemoryLocation) :
    LocationKey × Locations :=
  if (locations.lookup key).isSome then (key, locations)
  else if dataFlowMaxAccessPathDepth < record.accessPath.length then (.unknown, locations)
  else locations.emplace key record

end Locations

/-! ## Lvalues -/

structure Declaration where
  key : String
  kind : String
  type : TypeInfo
  deriving DecidableEq, Repr

structure Field where
  key : String
  name : String
  type : TypeInfo
  deriving DecidableEq, Repr

/-- The forms of `locationForLValue`; `pointee` is given for `->`. -/
inductive LValue where
  | declaration (declaration : Declaration)
  | this (type : TypeInfo)
  | field (base : LValue) (pointee : Option TypeInfo) (field : Field)
  | dereference (base : LValue) (type : TypeInfo)
  | unresolved
  deriving DecidableEq, Repr

/-- `locationForDecl` -/
def locationForDecl (declaration : Declaration) (locations : Locations) :
    LocationKey × Locations :=
  let key := .declaration declaration.key
  if (locations.lookup key).isSome then (key, locations)
  else locations.emplace key { kind := declaration.kind, type := declaration.type }

/-- The location that a pointer's location leads to. -/
def dereferenced (base : LocationKey) (type : TypeInfo) (locations : Locations) :
    LocationKey × Locations :=
  locations.addDerivedLocation (.dereference base)
    { kind := "dereference", type, accessPath := locations.pathOf base ++ ["*"] }

/-- What a member access names once its base has a location. -/
def fieldOf (pointee : Option TypeInfo) (field : Field) (base : LocationKey)
    (locations : Locations) : LocationKey × Locations :=
  let (base, locations) :=
    match pointee with
    | some type => dereferenced base type locations
    | none => (base, locations)
  locations.addDerivedLocation (.field base field.key)
    { kind := "field", type := field.type, accessPath := locations.pathOf base ++ [field.name] }

/-- `locationForLValue` -/
def locationForLValue : LValue → Locations → LocationKey × Locations
  | .declaration declaration, locations => locationForDecl declaration locations
  | .this type, locations =>
      -- The receiver is entered even if the table is full.
      if (locations.lookup .this).isSome then (.this, locations)
      else (.this, locations ++ [(.this, { kind := "parameter", type })])
  | .field base pointee field, locations =>
      let (base, locations) := locationForLValue base locations
      fieldOf pointee field base locations
  | .dereference base type, locations =>
      let (base, locations) := locationForLValue base locations
      dereferenced base type locations
  | .unresolved, locations => (.unknown, locations)

/-- The forms of `evaluatePointsTo` before their locations are named. -/
inductive SourceExpr where
  | function (key : String)
  | value (declaration : Declaration)
  | addressOf (operand : LValue)
  | conditional (whenTrue whenFalse : SourceExpr)
  | memberPointer (member : SourceExpr)
  | null
  | other
  deriving DecidableEq, Repr

/-- Name the locations of an expression in the order in which it is evaluated. -/
def SourceExpr.resolve (analysis : String) : SourceExpr → Locations → PointerExpr × Locations
  | .function key, locations => (.function key, locations)
  | .value declaration, locations =>
      let (key, locations) := locationForDecl declaration locations
      (.value (key.text analysis) declaration.type.tracksPointsTo, locations)
  | .addressOf operand, locations =>
      let (key, locations) := locationForLValue operand locations
      (.addressOf (key.text analysis), locations)
  | .conditional whenTrue whenFalse, locations =>
      let (left, locations) := whenTrue.resolve analysis locations
      let (right, locations) := whenFalse.resolve analysis locations
      (.conditional left right, locations)
  | .memberPointer member, locations =>
      let (member, locations) := member.resolve analysis locations
      (.memberPointer member, locations)
  | .null, locations => (.null, locations)
  | .other, locations => (.other, locations)

/-! ## Later tables -/

namespace Locations

/-- `later` comes from `earlier` by naming more: a full table gets no key but the receiver's. -/
structure Later (earlier later : Locations) : Prop where
  keeps : earlier <+: later
  full : dataFlowMaxLocations ≤ earlier.length → ∀ key, key ≠ .this →
    earlier.lookup key = none → later.lookup key = none

/-- The path to a derived location is within the depth. -/
def Fits (locations : Locations) : LocationKey → Prop
  | .dereference base | .field base _ => (locations.lookup base).isSome ∧
      (locations.pathOf base).length < dataFlowMaxAccessPathDepth
  | _ => True

/-- Every derived location in the table has its base there, and the unknown location is there. -/
structure Wellformed (locations : Locations) : Prop where
  unknown : (locations.lookup .unknown).isSome
  fits : ∀ key, (locations.lookup key).isSome → locations.Fits key

variable {earlier later last locations : Locations} {key : LocationKey} {record : MemoryLocation}

theorem Later.refl (locations : Locations) : Later locations locations :=
  ⟨List.prefix_rfl, fun _ _ _ h => h⟩

theorem Later.trans (hfirst : Later earlier later) (hsecond : Later later last) :
    Later earlier last where
  keeps := hfirst.keeps.trans hsecond.keeps
  full hfull key hne hnone :=
    hsecond.full (hfull.trans hfirst.keeps.length_le) key hne (hfirst.full hfull key hne hnone)

theorem Later.lookup (h : Later earlier later) (hrecord : earlier.lookup key = some record) :
    later.lookup key = some record := by
  obtain ⟨rest, rfl⟩ := h.keeps
  rw [List.lookup_append, hrecord]
  rfl

theorem Later.isSome (h : Later earlier later) (hkey : (earlier.lookup key).isSome) :
    (later.lookup key).isSome := by
  obtain ⟨record, hrecord⟩ := Option.isSome_iff_exists.mp hkey
  rw [h.lookup hrecord]
  rfl

theorem Later.pathOf (h : Later earlier later) (hkey : (earlier.lookup key).isSome) :
    later.pathOf key = earlier.pathOf key := by
  obtain ⟨record, hrecord⟩ := Option.isSome_iff_exists.mp hkey
  unfold Locations.pathOf
  rw [h.lookup hrecord, hrecord]

theorem Later.fits (hlater : Later earlier later) (h : earlier.Fits key) : later.Fits key := by
  cases key with
  | dereference base => exact ⟨hlater.isSome h.1, hlater.pathOf h.1 ▸ h.2⟩
  | field base field => exact ⟨hlater.isSome h.1, hlater.pathOf h.1 ▸ h.2⟩
  | unknown | this | returned | callReturn | declaration => trivial

theorem lookup_append_self (hnone : locations.lookup key = none) :
    (locations ++ [(key, record)]).lookup key = some record := by
  rw [List.lookup_append, hnone]
  simp

theorem later_append (hroom : locations.length < dataFlowMaxLocations ∨ key = .this) :
    Later locations (locations ++ [(key, record)]) where
  keeps := List.prefix_append _ _
  full hfull other hne hnone := by
    rcases hroom with hroom | rfl
    · omega
    · rw [List.lookup_append, hnone]
      simp [hne]

theorem Wellformed.append (h : Wellformed locations) (hlater : Later locations
    (locations ++ [(key, record)])) (hfits : locations.Fits key) :
    Wellformed (locations ++ [(key, record)]) where
  unknown := hlater.isSome h.unknown
  fits other hother := by
    rw [List.lookup_append, Option.isSome_or, Bool.or_eq_true] at hother
    rcases hother with hother | hother
    · exact hlater.fits (h.fits other hother)
    · have hsame : other = key := by
        by_contra hne
        simp [hne] at hother
      rw [hsame]
      exact hlater.fits hfits

/-! ## Naming -/

/-- Naming leads to a later table, in which the key is found and from which on naming again
changes nothing. -/
structure Names (run : Locations → LocationKey × Locations) (locations : Locations) : Prop where
  later : Later locations (run locations).2
  wellformed : Wellformed (run locations).2
  found : ((run locations).2.lookup (run locations).1).isSome
  again : ∀ last, Later (run locations).2 last → Wellformed last →
    run last = ((run locations).1, last)

theorem names_known (h : Wellformed locations) {run : Locations → LocationKey × Locations}
    (hpresent : ∀ table : Locations, (table.lookup key).isSome → run table = (key, table))
    (hkey : (locations.lookup key).isSome) : Names run locations := by
  have hrun := hpresent locations hkey
  refine ⟨by rw [hrun]; exact .refl locations, by rw [hrun]; exact h, by rw [hrun]; exact hkey, ?_⟩
  intro last hlater _
  rw [hrun] at hlater ⊢
  exact hpresent last (hlater.isSome hkey)

theorem names_entered (h : Wellformed locations) {run : Locations → LocationKey × Locations}
    (hpresent : ∀ table : Locations, (table.lookup key).isSome → run table = (key, table))
    (hkey : locations.lookup key = none) (hfits : locations.Fits key)
    (hroom : locations.length < dataFlowMaxLocations ∨ key = .this)
    (hrun : run locations = (key, locations ++ [(key, record)])) : Names run locations := by
  have hlater : Later locations (locations ++ [(key, record)]) := later_append hroom
  have hfound : ((locations ++ [(key, record)]).lookup key).isSome := by
    rw [lookup_append_self hkey]
    rfl
  refine ⟨by rw [hrun]; exact hlater, by rw [hrun]; exact h.append hlater hfits,
    by rw [hrun]; exact hfound, ?_⟩
  intro last hlast _
  rw [hrun] at hlast ⊢
  exact hpresent last (hlast.isSome hfound)

theorem names_emplace (h : Wellformed locations) (hne : key ≠ .this)
    (hfits : locations.Fits key) {run : Locations → LocationKey × Locations}
    (hpresent : ∀ table : Locations, (table.lookup key).isSome → run table = (key, table))
    (habsent : ∀ table : Locations, Later locations table → table.lookup key = none →
      run table = table.emplace key record) : Names run locations := by
  cases hkey : locations.lookup key with
  | some known => exact names_known h hpresent (by rw [hkey]; rfl)
  | none =>
      have hrun := habsent locations (.refl locations) hkey
      by_cases hroom : dataFlowMaxLocations ≤ locations.length
      · have hfull : locations.emplace key record = (.unknown, locations) := if_pos hroom
        rw [hfull] at hrun
        refine ⟨by rw [hrun]; exact .refl locations, by rw [hrun]; exact h,
          by rw [hrun]; exact h.unknown, ?_⟩
        intro last hlater _
        rw [hrun] at hlater ⊢
        rw [habsent last hlater (hlater.full hroom key hne hkey)]
        exact if_pos (hroom.trans hlater.keeps.length_le)
      · have hentered : locations.emplace key record = (key, locations ++ [(key, record)]) :=
          if_neg hroom
        rw [hentered] at hrun
        exact names_entered h hpresent hkey hfits (.inl (Nat.lt_of_not_le hroom)) hrun

theorem names_declaration (h : Wellformed locations) (declaration : Declaration) :
    Names (locationForDecl declaration) locations := by
  have hfits : locations.Fits (.declaration declaration.key) := trivial
  apply names_emplace h (by simp) hfits
  · intro table hpresent
    exact if_pos hpresent
  · intro table _ habsent
    unfold locationForDecl
    simp only [habsent]
    rfl

/-- A location whose key determines the length of its path. -/
theorem names_derived (h : Wellformed locations) {base : LocationKey}
    (hbase : (locations.lookup base).isSome) (hne : key ≠ .this)
    (hfits : ∀ table : Locations, table.Fits key ↔ (table.lookup base).isSome ∧
      (table.pathOf base).length < dataFlowMaxAccessPathDepth)
    {make : Locations → MemoryLocation} (hpath : ∀ table : Locations,
      (make table).accessPath.length = (table.pathOf base).length + 1)
    (hmake : ∀ table, Later locations table → make table = make locations) :
    Names (fun table => table.addDerivedLocation key (make table)) locations := by
  by_cases hdepth : (locations.pathOf base).length < dataFlowMaxAccessPathDepth
  · refine @names_emplace _ _ (make locations) h hne ((hfits locations).mpr ⟨hbase, hdepth⟩) _
      (fun table hpresent => ?_) fun table hlater habsent => ?_
    · exact if_pos hpresent
    · have hshort : ¬ dataFlowMaxAccessPathDepth < (make locations).accessPath.length := by
        rw [hpath]
        omega
      unfold addDerivedLocation
      rw [habsent, hmake table hlater]
      simp [hshort]
  · have hrun (last : Locations) (hlater : Later locations last) (hlast : Wellformed last) :
        last.addDerivedLocation key (make last) = (.unknown, last) := by
      have habsent : ¬ (last.lookup key).isSome := fun hkey => by
        have hlength := ((hfits last).mp (hlast.fits key hkey)).2
        rw [hlater.pathOf hbase] at hlength
        exact hdepth hlength
      have hlong : dataFlowMaxAccessPathDepth < (make last).accessPath.length := by
        rw [hpath, hlater.pathOf hbase]
        omega
      unfold addDerivedLocation
      rw [if_neg habsent, if_pos hlong]
    have hfirst := hrun locations (.refl locations) h
    refine ⟨by rw [hfirst]; exact .refl locations, by rw [hfirst]; exact h, ?_, ?_⟩
    · rw [hfirst]
      exact h.unknown
    · intro last hlater hlast
      rw [hfirst] at hlater ⊢
      exact hrun last hlater hlast

theorem names_dereferenced (h : Wellformed locations) {base : LocationKey}
    (hbase : (locations.lookup base).isSome) (type : TypeInfo) :
    Names (dereferenced base type) locations := by
  apply names_derived h hbase (by simp) (fun _ => Iff.rfl)
  · intro table
    simp
  · intro table hlater
    rw [hlater.pathOf hbase]

/-- Name a location and then, from its key, another one. -/
theorem Names.bind {run : Locations → LocationKey × Locations} (h : Names run locations)
    {next : LocationKey → Locations → LocationKey × Locations}
    (hnext : ∀ key table, (table.lookup key).isSome → Wellformed table → Names (next key) table) :
    Names (fun table => next (run table).1 (run table).2) locations := by
  have hthen := hnext _ _ h.found h.wellformed
  refine ⟨h.later.trans hthen.later, hthen.wellformed, hthen.found, fun last hlast hwell => ?_⟩
  have hfirst := h.again last (hthen.later.trans hlast) hwell
  show next (run last).1 (run last).2 = _
  rw [hfirst]
  exact hthen.again last hlast hwell

theorem names_this (h : Wellformed locations) (type : TypeInfo) :
    Names (locationForLValue (.this type)) locations := by
  have hpresent (table : Locations) (hkey : (table.lookup .this).isSome) :
      locationForLValue (.this type) table = (.this, table) := by
    unfold locationForLValue
    rw [if_pos hkey]
  cases hkey : locations.lookup .this with
  | some known => exact names_known h hpresent (by rw [hkey]; rfl)
  | none =>
      apply names_entered h hpresent hkey trivial (.inr rfl)
      unfold locationForLValue
      rw [hkey]
      rfl

theorem names_field (h : Wellformed locations) {base : LocationKey}
    (hbase : (locations.lookup base).isSome) (pointee : Option TypeInfo) (field : Field) :
    Names (fieldOf pointee field base) locations := by
  have hselect (base : LocationKey) (table : Locations) (hbase : (table.lookup base).isSome)
      (htable : Wellformed table) : Names (fieldOf none field base) table := by
    apply names_derived htable hbase (by simp) (fun _ => Iff.rfl)
    · intro table
      simp
    · intro table hlater
      rw [hlater.pathOf hbase]
  cases pointee with
  | none => exact hselect base locations hbase h
  | some type => exact (names_dereferenced h hbase type).bind hselect

theorem names_lvalue (lvalue : LValue) (h : Wellformed locations) :
    Names (locationForLValue lvalue) locations := by
  induction lvalue generalizing locations with
  | declaration declaration => exact names_declaration h declaration
  | this type => exact names_this h type
  | field base pointee field ih =>
      exact (ih h).bind fun key table hkey htable => names_field htable hkey pointee field
  | dereference base type ih =>
      exact (ih h).bind fun key table hkey htable => names_dereferenced htable hkey type
  | unresolved => exact ⟨.refl locations, h, h.unknown, fun last _ _ => rfl⟩

/-- Resolving an expression leads to a later table, from which on resolving it again gives the same
and changes nothing. -/
theorem resolve_again (analysis : String) (expression : SourceExpr) (h : Wellformed locations) :
    Later locations (expression.resolve analysis locations).2 ∧
      Wellformed (expression.resolve analysis locations).2 ∧
      ∀ last, Later (expression.resolve analysis locations).2 last → Wellformed last →
        expression.resolve analysis last = ((expression.resolve analysis locations).1, last) := by
  induction expression generalizing locations with
  | value declaration =>
      obtain ⟨hlater, hwell, -, hagain⟩ := names_declaration h declaration
      refine ⟨hlater, hwell, fun last hlast hlastWell => ?_⟩
      unfold SourceExpr.resolve
      rw [hagain last hlast hlastWell]
  | addressOf operand =>
      obtain ⟨hlater, hwell, -, hagain⟩ := names_lvalue operand h
      refine ⟨hlater, hwell, fun last hlast hlastWell => ?_⟩
      unfold SourceExpr.resolve
      rw [hagain last hlast hlastWell]
  | conditional whenTrue whenFalse ihTrue ihFalse =>
      obtain ⟨hleft, hleftWell, hleftAgain⟩ := ihTrue h
      obtain ⟨hright, hrightWell, hrightAgain⟩ := ihFalse hleftWell
      refine ⟨hleft.trans hright, hrightWell, fun last hlast hlastWell => ?_⟩
      unfold SourceExpr.resolve
      rw [hleftAgain last (hright.trans hlast) hlastWell]
      simp only
      rw [hrightAgain last hlast hlastWell]
  | memberPointer member ih =>
      obtain ⟨hlater, hwell, hagain⟩ := ih h
      refine ⟨hlater, hwell, fun last hlast hlastWell => ?_⟩
      unfold SourceExpr.resolve
      rw [hagain last hlast hlastWell]
  | function | null | other => exact ⟨.refl locations, h, fun last _ _ => rfl⟩

end Locations

end CppContextEngine.Analyzer
