import CppContextEngine.Analyzer.Locations

/-!
# The storage that an argument names

The search for an argument's storage goes down into its subexpressions and takes
the one location that they name.  What the argument designates is another
matter: a call or a sum names storage that it only reads.
-/

namespace CppContextEngine.Analyzer

/-! ## Expressions -/

mutual

/-- The forms of `summaryLocationForExpr`, without parentheses and implicit casts. -/
inductive ArgumentExpr where
  /-- A name, and whether it is that of storage rather than of a function or an enumerator. -/
  | reference (declaration : Declaration) (storage : Bool)
  | this (type : TypeInfo)
  /-- A field; `pointee` is given for `->`. -/
  | member (base : ArgumentExpr) (pointee : Option TypeInfo) (field : Field)
  /-- A member that is no field. -/
  | method (base : ArgumentExpr)
  | dereference (operand : ArgumentExpr) (type : TypeInfo)
  | addressOf (operand : ArgumentExpr)
  /-- Any other expression by its `children()`. -/
  | compound (parts : ExprParts)

/-- Subexpressions.  A forwarded one, such as the branch of a conditional, the operand of a cast
or the left side of an assignment, lends the whole its storage. -/
inductive ExprParts where
  | nil
  | cons (forwarded : Bool) (child : ArgumentExpr) (rest : ExprParts)

end

/-- An expression as `locationForLValue` reads it. -/
def ArgumentExpr.lvalue : ArgumentExpr → LValue
  | reference declaration _ => .declaration declaration
  | this type => .this type
  | member base pointee field => .field base.lvalue pointee field
  | dereference operand type => .dereference operand.lvalue type
  | method _ | addressOf _ | compound _ => .unresolved

/-! ## The search -/

mutual

/-- `summaryLocationForExpr` -/
def summaryLocationForExpr : ArgumentExpr → Locations → LocationKey × Locations
  | .addressOf operand, locations => locationForLValue operand.lvalue locations
  | .reference declaration _, locations => locationForDecl declaration locations
  | .member base pointee field, locations =>
      locationForLValue (.field base.lvalue pointee field) locations
  | .method _, locations => (.unknown, locations)
  | .dereference operand type, locations =>
      locationForLValue (.dereference operand.lvalue type) locations
  | .this _, locations => (.unknown, locations)
  | .compound parts, locations => searchParts parts none locations

/-- The loop over the children; `result` is what was found before. -/
def searchParts : ExprParts → Option LocationKey → Locations → LocationKey × Locations
  | .nil, result, locations => (result.getD .unknown, locations)
  | .cons _ child rest, result, locations =>
      let (candidate, locations) := summaryLocationForExpr child locations
      if candidate = .unknown then searchParts rest result locations
      else if result.any (· ≠ candidate) then (.unknown, locations)
      else searchParts rest (some candidate) locations

end

/-- The expression whose storage an argument is bound to. -/
def ArgumentExpr.boundStorage : ArgumentExpr → ArgumentExpr
  | addressOf operand => operand
  | argument => argument

/-! ## What is named -/

/-- The one element besides `skip`. -/
def sole {α : Type} [DecidableEq α] (skip : α) (elements : List α) : α :=
  match (elements.filter (· ≠ skip)).dedup with
  | [element] => element
  | _ => skip

theorem sole_eq_iff {α : Type} [DecidableEq α] {skip element : α} {elements : List α}
    (hne : element ≠ skip) : sole skip elements = element ↔
      element ∈ elements ∧ ∀ other ∈ elements, other = skip ∨ other = element := by
  have hmem (other : α) : other ∈ (elements.filter (· ≠ skip)).dedup ↔
      other ∈ elements ∧ other ≠ skip := by
    simp [List.mem_dedup, List.mem_filter]
  have hnodup := List.nodup_dedup (elements.filter (· ≠ skip))
  unfold sole
  generalize (elements.filter (· ≠ skip)).dedup = distinct at hmem hnodup
  constructor
  · intro h
    split at h
    · rename_i found
      subst h
      refine ⟨((hmem found).mp (by simp)).1, fun other hother => ?_⟩
      by_cases hskip : other = skip
      · exact .inl hskip
      · exact .inr (by simpa using (hmem other).mpr ⟨hother, hskip⟩)
    · exact absurd h.symm hne
  · rintro ⟨helement, hall⟩
    have hsame : ∀ other ∈ distinct, other = element := by
      intro other hother
      obtain ⟨hlisted, hskip⟩ := (hmem other).mp hother
      exact (hall other hlisted).resolve_left hskip
    have hin : element ∈ distinct := (hmem element).mpr ⟨helement, hne⟩
    match distinct with
    | [] => cases hin
    | [found] => exact hsame found (by simp)
    | first :: second :: _ =>
        have hfirst := hsame first (by simp)
        have hsecond := hsame second (by simp)
        simp [hfirst, hsecond] at hnodup

theorem sole_congr {α : Type} [DecidableEq α] {skip : α} {elements others : List α}
    (h : ∀ element, element ≠ skip → (element ∈ elements ↔ element ∈ others)) :
    sole skip elements = sole skip others := by
  have hsame {first second : List α}
      (h : ∀ element, element ≠ skip → (element ∈ first ↔ element ∈ second))
      (hne : sole skip first ≠ skip) : sole skip second = sole skip first := by
    obtain ⟨hmem, hall⟩ := (sole_eq_iff hne).mp rfl
    refine (sole_eq_iff hne).mpr ⟨(h _ hne).mp hmem, fun other hother => ?_⟩
    by_cases hskip : other = skip
    · exact .inl hskip
    · exact hall other ((h other hskip).mpr hother)
  by_cases hfirst : sole skip elements = skip
  · by_cases hsecond : sole skip others = skip
    · rw [hfirst, hsecond]
    · exact hsame (fun element hne => (h element hne).symm) hsecond
  · exact (hsame h hfirst).symm

theorem sole_eq_skip {α : Type} [DecidableEq α] {skip first second : α} {elements : List α}
    (hfirst : first ∈ elements) (hsecond : second ∈ elements) (hne : first ≠ second)
    (hskip : first ≠ skip ∧ second ≠ skip) : sole skip elements = skip := by
  by_contra hfound
  obtain ⟨-, hall⟩ := (sole_eq_iff hfound).mp rfl
  have hsame := (hall first hfirst).resolve_left hskip.1
  exact hne (hsame.trans ((hall second hsecond).resolve_left hskip.2).symm)

section Mention

variable (named : LValue → LocationKey)

mutual

/-- The one location that an expression names, when lvalues are named by `named`. -/
def ArgumentExpr.mention : ArgumentExpr → LocationKey
  | .addressOf operand => named operand.lvalue
  | .reference declaration _ => named (.declaration declaration)
  | .member base pointee field => named (.field base.lvalue pointee field)
  | .dereference operand type => named (.dereference operand.lvalue type)
  | .method _ | .this _ => .unknown
  | .compound parts => sole .unknown parts.mentions

def ExprParts.mentions : ExprParts → List LocationKey
  | .nil => []
  | .cons _ child rest => child.mention :: rest.mentions

end

end Mention

section Search

open Locations

/-- How a table names lvalues. -/
def Locations.naming (locations : Locations) (lvalue : LValue) : LocationKey :=
  (locationForLValue lvalue locations).1

/-- A search leads to a later table, from which on its result is what the expression names. -/
structure Finds (mention : (LValue → LocationKey) → LocationKey) (locations : Locations)
    (result : LocationKey × Locations) : Prop where
  later : Later locations result.2
  wellformed : Wellformed result.2
  found : (result.2.lookup result.1).isSome
  mentioned : ∀ last, Later result.2 last → Wellformed last →
    mention last.naming = result.1

variable {locations : Locations}

theorem finds_unknown (h : Wellformed locations) :
    Finds (fun _ => .unknown) locations (.unknown, locations) :=
  ⟨.refl locations, h, h.unknown, fun _ _ _ => rfl⟩

theorem finds_lvalue (lvalue : LValue) (h : Wellformed locations) :
    Finds (fun named => named lvalue) locations (locationForLValue lvalue locations) := by
  obtain ⟨hlater, hwell, hfound, hagain⟩ := names_lvalue lvalue h
  refine ⟨hlater, hwell, hfound, fun last hlast hlastWell => ?_⟩
  unfold Locations.naming
  rw [hagain last hlast hlastWell]

mutual

theorem finds_summaryLocationForExpr (argument : ArgumentExpr) {locations : Locations}
    (h : Wellformed locations) :
    Finds argument.mention locations (summaryLocationForExpr argument locations) := by
  match argument with
  | .addressOf operand => exact finds_lvalue operand.lvalue h
  | .reference declaration _ => exact finds_lvalue (.declaration declaration) h
  | .member base pointee field => exact finds_lvalue (.field base.lvalue pointee field) h
  | .dereference operand type => exact finds_lvalue (.dereference operand.lvalue type) h
  | .method _ => exact finds_unknown h
  | .this _ => exact finds_unknown h
  | .compound parts =>
      unfold summaryLocationForExpr
      simpa [ArgumentExpr.mention] using finds_searchParts parts none h (by simp)

/-- The loop has named what it found so far. -/
theorem finds_searchParts (parts : ExprParts) (result : Option LocationKey)
    {locations : Locations} (h : Wellformed locations)
    (hresult : ∀ key ∈ result, key ≠ .unknown ∧ (locations.lookup key).isSome) :
    Finds (fun named => sole .unknown (result.toList ++ parts.mentions named)) locations
      (searchParts parts result locations) := by
  match parts with
  | .nil =>
      unfold searchParts
      cases result with
      | none => exact finds_unknown h
      | some key =>
          obtain ⟨hne, hfound⟩ := hresult key rfl
          refine ⟨.refl locations, h, hfound, fun _ _ _ => ?_⟩
          exact (sole_eq_iff hne).mpr (by simp [ExprParts.mentions])
  | .cons forwarded child rest =>
      have hchild := finds_summaryLocationForExpr child h
      unfold searchParts
      simp only
      split
      · rename_i hunknown
        have hrest := finds_searchParts rest result hchild.wellformed fun key hkey =>
          ⟨(hresult key hkey).1, hchild.later.isSome (hresult key hkey).2⟩
        refine ⟨hchild.later.trans hrest.later, hrest.wellformed, hrest.found, ?_⟩
        intro last hlast hlastWell
        rw [← hrest.mentioned last hlast hlastWell]
        have hnone := hchild.mentioned last (hrest.later.trans hlast) hlastWell
        apply sole_congr
        intro key hne
        simp [ExprParts.mentions, hnone, hunknown, hne]
      · rename_i hknown
        split
        · rename_i hother
          obtain ⟨key, rfl, hne⟩ := (Option.any_eq_true _ _).mp hother
          refine ⟨hchild.later, hchild.wellformed, hchild.wellformed.unknown, ?_⟩
          intro last hlast hlastWell
          have hnamed := hchild.mentioned last hlast hlastWell
          have hmentioned : (summaryLocationForExpr child locations).1 ∈
              (some key).toList ++ (ExprParts.cons forwarded child rest).mentions last.naming := by
            simp [ExprParts.mentions, hnamed]
          exact sole_eq_skip (by simp) hmentioned (by simpa using hne)
            ⟨(hresult key rfl).1, hknown⟩
        · rename_i hsame
          have hrest := finds_searchParts rest
            (some (summaryLocationForExpr child locations).1) hchild.wellformed (by
              rintro key ⟨rfl⟩
              exact ⟨hknown, hchild.found⟩)
          refine ⟨hchild.later.trans hrest.later, hrest.wellformed, hrest.found, ?_⟩
          intro last hlast hlastWell
          rw [← hrest.mentioned last hlast hlastWell]
          have hnamed := hchild.mentioned last (hrest.later.trans hlast) hlastWell
          apply sole_congr
          intro key hne
          cases result with
          | none => simp [ExprParts.mentions, hnamed]
          | some before =>
              have hbefore : before = (summaryLocationForExpr child locations).1 := by
                simpa using hsame
              simp [ExprParts.mentions, hnamed, hbefore]

end

end Search

/-! ## What is designated -/

/-- What an expression stands for: what lies in a storage, a pointer to it, or nothing named. -/
inductive Referent where
  | stored (key : LocationKey)
  | address (key : LocationKey)
  | unnamed
  deriving DecidableEq, Repr

namespace Referent

/-- The storage that an argument designates: of a pointer to storage, that storage. -/
def storage : Referent → Option LocationKey
  | stored key | address key => some key
  | unnamed => none

def pointee : Referent → Referent
  | stored key => stored (.dereference key)
  | address key => stored key
  | unnamed => unnamed

def select (field : Field) : Referent → Referent
  | stored key => stored (.field key field.key)
  | address _ | unnamed => unnamed

def toAddress : Referent → Referent
  | stored key | address key => address key
  | unnamed => unnamed

@[simp] theorem storage_toAddress (referent : Referent) :
    referent.toAddress.storage = referent.storage := by
  cases referent <;> rfl

end Referent

mutual

/-- All that an expression may stand for. -/
def ArgumentExpr.referents : ArgumentExpr → List Referent
  | .reference declaration storage =>
      [if storage then .stored (.declaration declaration.key) else .unnamed]
  | .this _ => [.stored .this]
  | .member base pointee field =>
      base.referents.map fun referent =>
        (if pointee.isSome then referent.pointee else referent).select field
  | .method _ => [.unnamed]
  | .dereference operand _ => operand.referents.map Referent.pointee
  | .addressOf operand => operand.referents.map Referent.toAddress
  | .compound parts => if parts.referents = [] then [.unnamed] else parts.referents

def ExprParts.referents : ExprParts → List Referent
  | .nil => []
  | .cons forwarded child rest =>
      if forwarded then child.referents ++ rest.referents else rest.referents

end

/-- The argument designates this storage and no other. -/
def ArgumentExpr.Designates (argument : ArgumentExpr) (key : LocationKey) : Prop :=
  ∀ referent ∈ argument.referents, referent.storage = some key

instance (argument : ArgumentExpr) (key : LocationKey) : Decidable (argument.Designates key) :=
  inferInstanceAs (Decidable (∀ referent ∈ argument.referents, referent.storage = some key))

/-- The forwarded subexpressions. -/
def ExprParts.forwarded : ExprParts → List ArgumentExpr
  | nil => []
  | cons forwarded child rest => if forwarded then child :: rest.forwarded else rest.forwarded

theorem ArgumentExpr.referents_ne_nil (argument : ArgumentExpr) : argument.referents ≠ [] := by
  match argument with
  | .reference _ _ | .this _ | .method _ => simp [referents]
  | .member base _ _ => simpa [referents] using base.referents_ne_nil
  | .dereference operand _ => simpa [referents] using operand.referents_ne_nil
  | .addressOf operand => simpa [referents] using operand.referents_ne_nil
  | .compound parts =>
      unfold referents
      split
      · simp
      · assumption

theorem ExprParts.mem_referents (parts : ExprParts) (referent : Referent) :
    referent ∈ parts.referents ↔ ∃ child ∈ parts.forwarded, referent ∈ child.referents := by
  match parts with
  | .nil => simp [referents, forwarded]
  | .cons isForwarded child rest =>
      have ih := rest.mem_referents referent
      cases isForwarded <;> simp [referents, forwarded, ih]

theorem designates_addressOf {operand : ArgumentExpr} {key : LocationKey} :
    (ArgumentExpr.addressOf operand).Designates key ↔ operand.Designates key := by
  simp [ArgumentExpr.Designates, ArgumentExpr.referents]

theorem designates_boundStorage {argument : ArgumentExpr} {key : LocationKey} :
    argument.boundStorage.Designates key ↔ argument.Designates key := by
  cases argument with
  | addressOf operand => exact designates_addressOf.symm
  | _ => rfl

/-- Any other expression designates what all its forwarded parts designate. -/
theorem designates_compound {parts : ExprParts} {key : LocationKey} :
    (ArgumentExpr.compound parts).Designates key ↔
      parts.forwarded ≠ [] ∧ ∀ child ∈ parts.forwarded, child.Designates key := by
  have hnil : parts.referents = [] ↔ parts.forwarded = [] := by
    constructor
    · intro hnone
      by_contra hsome
      obtain ⟨child, rest, hforwarded⟩ := List.exists_cons_of_ne_nil hsome
      obtain ⟨referent, more, hreferents⟩ :=
        List.exists_cons_of_ne_nil child.referents_ne_nil
      have hmem := (parts.mem_referents referent).mpr
        ⟨child, by simp [hforwarded], by simp [hreferents]⟩
      rw [hnone] at hmem
      cases hmem
    · intro hnone
      rw [List.eq_nil_iff_forall_not_mem]
      intro referent hmem
      obtain ⟨child, hchild, -⟩ := (parts.mem_referents _).mp hmem
      rw [hnone] at hchild
      cases hchild
  unfold ArgumentExpr.Designates
  rw [ArgumentExpr.referents]
  by_cases hnone : parts.referents = []
  · simp [hnone, hnil.mp hnone, Referent.storage]
  · rw [if_neg hnone]
    refine ⟨fun h => ⟨fun hforwarded => hnone (hnil.mpr hforwarded), ?_⟩, ?_⟩
    · exact fun child hchild referent hmem =>
        h referent ((parts.mem_referents _).mpr ⟨child, hchild, hmem⟩)
    · rintro ⟨-, h⟩ referent hmem
      obtain ⟨child, hchild, hreferent⟩ := (parts.mem_referents _).mp hmem
      exact h child hchild referent hreferent

/-! ## Names that lead astray -/

/-- The key hangs on a declaration or the receiver, not on the unknown location. -/
def LocationKey.Grounded : LocationKey → Prop
  | .unknown => False
  | .dereference base | .field base _ => base.Grounded
  | .this | .returned | .callReturn _ | .declaration _ => True

instance LocationKey.decidableGrounded : (key : LocationKey) → Decidable key.Grounded
  | .unknown => inferInstanceAs (Decidable False)
  | .dereference base | .field base _ => decidableGrounded base
  | .this | .returned | .callReturn _ | .declaration _ => inferInstanceAs (Decidable True)

/-- The key of an lvalue whose parts could all be named. -/
def LValue.key? : LValue → Option LocationKey
  | .declaration declared => some (.declaration declared.key)
  | .this _ => some .this
  | .field base pointee selected => base.key?.map fun key =>
      .field (if pointee.isSome then .dereference key else key) selected.key
  | .dereference base _ => base.key?.map .dereference
  | .unresolved => none

namespace Locations

variable {locations : Locations} {key : LocationKey} {record : MemoryLocation}

theorem emplace_fst : (locations.emplace key record).1 = key ∨
    (locations.emplace key record).1 = .unknown := by
  unfold emplace
  split <;> simp

theorem addDerivedLocation_fst : (locations.addDerivedLocation key record).1 = key ∨
    (locations.addDerivedLocation key record).1 = .unknown := by
  unfold addDerivedLocation
  split
  · exact .inl rfl
  split
  · exact .inr rfl
  · exact emplace_fst

/-- A location that is not derived from the unknown one has the key of its lvalue. -/
theorem key_of_grounded (lvalue : LValue) :
    ∀ locations : Locations, (locationForLValue lvalue locations).1.Grounded →
      lvalue.key? = some (locationForLValue lvalue locations).1 := by
  have hderived {table : Locations} {key : LocationKey} {record : MemoryLocation}
      (h : (table.addDerivedLocation key record).1.Grounded) :
      (table.addDerivedLocation key record).1 = key ∧ key.Grounded := by
    rcases @addDerivedLocation_fst table key record with hkey | hunknown
    · exact ⟨hkey, hkey ▸ h⟩
    · rw [hunknown] at h
      exact h.elim
  have hdereferenced {table : Locations} {base : LocationKey} {type : TypeInfo}
      (h : (dereferenced base type table).1.Grounded) :
      (dereferenced base type table).1 = .dereference base ∧ base.Grounded :=
    hderived h
  induction lvalue with
  | declaration declaration =>
      intro locations h
      simp only [locationForLValue, locationForDecl] at h ⊢
      split
      · rfl
      · rename_i habsent
        rw [if_neg habsent] at h
        rcases @emplace_fst locations (.declaration declaration.key)
          { kind := declaration.kind, type := declaration.type } with hkey | hunknown
        · rw [hkey]
          rfl
        · rw [hunknown] at h
          exact h.elim
  | this type =>
      intro locations _
      unfold locationForLValue
      split <;> rfl
  | field base pointee field ih =>
      intro locations h
      cases pointee with
      | none =>
          obtain ⟨hkey, hgrounded⟩ := hderived h
          have hbase := ih locations hgrounded
          simp only [LValue.key?, hbase, Option.map_some, Option.isSome_none]
          exact congrArg some hkey.symm
      | some type =>
          obtain ⟨hkey, hgrounded⟩ := hderived h
          obtain ⟨hpointee, hbaseGrounded⟩ := hdereferenced hgrounded
          have hbase := ih locations hbaseGrounded
          simp only [LValue.key?, hbase, Option.map_some, Option.isSome_some, if_true]
          rw [← hpointee]
          exact congrArg some hkey.symm
  | dereference base type ih =>
      intro locations h
      obtain ⟨hkey, hgrounded⟩ := hdereferenced h
      have hbase := ih locations hgrounded
      simp only [LValue.key?, hbase, Option.map_some]
      exact congrArg some hkey.symm
  | unresolved =>
      intro locations h
      exact h.elim

theorem key_of_naming (locations : Locations) (lvalue : LValue)
    (h : (locations.naming lvalue).Grounded) : lvalue.key? = some (locations.naming lvalue) :=
  key_of_grounded lvalue locations h

end Locations

namespace ArgumentExpr

/-- The lvalue whose location the search takes without going down. -/
def target : ArgumentExpr → Option LValue
  | reference declaration _ => some (.declaration declaration)
  | member base pointee field => some (.field base.lvalue pointee field)
  | dereference operand type => some (.dereference operand.lvalue type)
  | addressOf operand => some operand.lvalue
  | this _ | method _ | compound _ => none

/-- The lvalue begins with a variable or the receiver. -/
def rooted : ArgumentExpr → Bool
  | reference _ storage => storage
  | this _ => true
  | member base _ _ => base.rooted
  | dereference operand _ | addressOf operand => operand.rooted
  | method _ | compound _ => false

theorem referents_of_key (argument : ArgumentExpr) {key : LocationKey}
    (h : argument.lvalue.key? = some key) :
    argument.referents = [if argument.rooted then .stored key else .unnamed] := by
  match argument with
  | .reference declaration storage =>
      cases h
      rfl
  | .this type =>
      cases h
      rfl
  | .member base pointee field =>
      simp only [lvalue, LValue.key?, Option.map_eq_some_iff] at h
      obtain ⟨below, hbelow, rfl⟩ := h
      have ih := base.referents_of_key hbelow
      rw [referents, rooted, ih]
      cases base.rooted <;> cases pointee <;> rfl
  | .dereference operand type =>
      simp only [lvalue, LValue.key?, Option.map_eq_some_iff] at h
      obtain ⟨below, hbelow, rfl⟩ := h
      have ih := operand.referents_of_key hbelow
      rw [referents, rooted, ih]
      cases operand.rooted <;> rfl
  | .method _ | .addressOf _ | .compound _ => cases h

end ArgumentExpr

mutual

/-- What an expression may designate hangs on a declaration or the receiver. -/
theorem grounded_of_referent (argument : ArgumentExpr) {referent : Referent}
    (hmem : referent ∈ argument.referents) {key : LocationKey}
    (hkey : referent.storage = some key) : key.Grounded := by
  have hpointee {below : Referent} (h : ∀ key, below.storage = some key → key.Grounded) :
      ∀ key, below.pointee.storage = some key → key.Grounded := by
    rintro key hkey
    cases below with
    | stored base =>
        cases hkey
        exact h base rfl
    | address base =>
        cases hkey
        exact h key rfl
    | unnamed => cases hkey
  have hselect {below : Referent} {field : Field}
      (h : ∀ key, below.storage = some key → key.Grounded) :
      ∀ key, (below.select field).storage = some key → key.Grounded := by
    rintro key hkey
    cases below with
    | stored base =>
        cases hkey
        exact h base rfl
    | address _ | unnamed => cases hkey
  match argument with
  | .reference declaration storage =>
      rw [ArgumentExpr.referents, List.mem_singleton] at hmem
      subst hmem
      cases storage with
      | false => cases hkey
      | true =>
          cases hkey
          trivial
  | .this _ =>
      rw [ArgumentExpr.referents, List.mem_singleton] at hmem
      subst hmem
      cases hkey
      trivial
  | .member base pointee field =>
      rw [ArgumentExpr.referents, List.mem_map] at hmem
      obtain ⟨below, hbelow, rfl⟩ := hmem
      have ih : ∀ key, below.storage = some key → key.Grounded :=
        fun _ hkey => grounded_of_referent base hbelow hkey
      apply hselect _ key hkey
      split
      · exact hpointee ih
      · exact ih
  | .method _ =>
      rw [ArgumentExpr.referents, List.mem_singleton] at hmem
      subst hmem
      cases hkey
  | .dereference operand _ =>
      rw [ArgumentExpr.referents, List.mem_map] at hmem
      obtain ⟨below, hbelow, rfl⟩ := hmem
      exact hpointee (fun _ hkey => grounded_of_referent operand hbelow hkey) key hkey
  | .addressOf operand =>
      rw [ArgumentExpr.referents, List.mem_map] at hmem
      obtain ⟨below, hbelow, rfl⟩ := hmem
      rw [Referent.storage_toAddress] at hkey
      exact grounded_of_referent operand hbelow hkey
  | .compound parts =>
      rw [ArgumentExpr.referents] at hmem
      split at hmem
      · rw [List.mem_singleton] at hmem
        subst hmem
        cases hkey
      · exact grounded_of_partReferent parts hmem hkey

theorem grounded_of_partReferent (parts : ExprParts) {referent : Referent}
    (hmem : referent ∈ parts.referents) {key : LocationKey}
    (hkey : referent.storage = some key) : key.Grounded := by
  match parts with
  | .nil => cases hmem
  | .cons forwarded child rest =>
      rw [ExprParts.referents] at hmem
      split at hmem
      · rcases List.mem_append.mp hmem with hchild | hrest
        · exact grounded_of_referent child hchild hkey
        · exact grounded_of_partReferent rest hrest hkey
      · exact grounded_of_partReferent rest hmem hkey

end

section Strays

variable (named : LValue → LocationKey)

/-- The search settles on storage that the expression does not designate. -/
inductive Strays : ArgumentExpr → Prop where
  /-- The name of a function or an enumerator. -/
  | entity {argument : ArgumentExpr} {lvalue : LValue} (target : argument.target = some lvalue)
      (known : named lvalue ≠ .unknown) (unrooted : argument.rooted = false) : Strays argument
  /-- A pointee or a field of something that was not named. -/
  | adrift {argument : ArgumentExpr} {lvalue : LValue} (target : argument.target = some lvalue)
      (known : named lvalue ≠ .unknown) (adrift : ¬ (named lvalue).Grounded) : Strays argument
  /-- An expression that only computes with the storage it mentions. -/
  | computed {parts : ExprParts} (known : (ArgumentExpr.compound parts).mention named ≠ .unknown)
      (none : parts.forwarded = []) : Strays (.compound parts)
  /-- An expression that may stand for something else than the storage it mentions. -/
  | elsewhere {parts : ExprParts} {child : ArgumentExpr}
      (known : (ArgumentExpr.compound parts).mention named ≠ .unknown)
      (forwarded : child ∈ parts.forwarded)
      (other : ¬ child.Designates ((ArgumentExpr.compound parts).mention named)) :
      Strays (.compound parts)

variable {named}

theorem mention_of_target {argument : ArgumentExpr} {lvalue : LValue}
    (h : argument.target = some lvalue) : argument.mention named = named lvalue := by
  cases argument with
  | this _ | method _ | compound _ => cases h
  | reference _ _ | member _ _ _ | dereference _ _ | addressOf _ =>
      cases h
      rfl

theorem designates_of_target (hnamed : ∀ lvalue, (named lvalue).Grounded →
      lvalue.key? = some (named lvalue)) {argument : ArgumentExpr} {lvalue : LValue}
    (h : argument.target = some lvalue) :
    argument.Designates (named lvalue) ↔
      (named lvalue).Grounded ∧ argument.rooted = true := by
  have hreferents (hgrounded : (named lvalue).Grounded) : ∃ referent : Referent,
      argument.referents = [referent] ∧ referent.storage =
        if argument.rooted then some (named lvalue) else none := by
    have hkey := hnamed lvalue hgrounded
    have hplain (hsame : argument.lvalue = lvalue) :=
      argument.referents_of_key (hsame.symm ▸ hkey)
    cases argument with
    | this _ | method _ | compound _ => cases h
    | reference declaration storage =>
        cases h
        exact ⟨_, hplain rfl, by cases ArgumentExpr.rooted _ <;> rfl⟩
    | member base pointee field =>
        cases h
        exact ⟨_, hplain rfl, by cases ArgumentExpr.rooted _ <;> rfl⟩
    | dereference operand type =>
        cases h
        exact ⟨_, hplain rfl, by cases ArgumentExpr.rooted _ <;> rfl⟩
    | addressOf operand =>
        cases h
        refine ⟨_, by rw [ArgumentExpr.referents, operand.referents_of_key hkey]; rfl, ?_⟩
        rw [ArgumentExpr.rooted]
        cases operand.rooted <;> rfl
  constructor
  · intro hdesignates
    obtain ⟨first, hfirst⟩ := List.exists_mem_of_ne_nil _ argument.referents_ne_nil
    have hgrounded := grounded_of_referent argument hfirst (hdesignates first hfirst)
    obtain ⟨referent, hall, hstorage⟩ := hreferents hgrounded
    have honly := hdesignates referent (by simp [hall])
    refine ⟨hgrounded, ?_⟩
    cases hrooted : argument.rooted with
    | true => rfl
    | false =>
        rw [hstorage, hrooted] at honly
        cases honly
  · rintro ⟨hgrounded, hrooted⟩ referent hmem
    obtain ⟨only, hall, hstorage⟩ := hreferents hgrounded
    rw [hall, List.mem_singleton] at hmem
    rw [hmem, hstorage, hrooted]
    rfl

/-- An argument strays exactly when it mentions one storage and designates another or none. -/
theorem strays_iff (hnamed : ∀ lvalue, (named lvalue).Grounded →
    lvalue.key? = some (named lvalue)) {argument : ArgumentExpr} :
    Strays named argument ↔ argument.mention named ≠ .unknown ∧
      ¬ argument.Designates (argument.mention named) := by
  constructor
  · rintro (⟨htarget, hknown, hunrooted⟩ | ⟨htarget, hknown, hadrift⟩ | ⟨hknown, hnone⟩ |
      ⟨hknown, hforwarded, hother⟩)
    · rw [mention_of_target htarget, designates_of_target hnamed htarget]
      simp [hknown, hunrooted]
    · rw [mention_of_target htarget, designates_of_target hnamed htarget]
      simp [hknown, hadrift]
    · exact ⟨hknown, fun h => (designates_compound.mp h).1 hnone⟩
    · exact ⟨hknown, fun h => hother ((designates_compound.mp h).2 _ hforwarded)⟩
  · rintro ⟨hknown, hother⟩
    cases htarget : argument.target with
    | some lvalue =>
        rw [mention_of_target htarget] at hknown hother
        rw [designates_of_target hnamed htarget, not_and_or, Bool.not_eq_true] at hother
        rcases hother with hadrift | hunrooted
        · exact .adrift htarget hknown hadrift
        · exact .entity htarget hknown hunrooted
    | none =>
        cases argument with
        | reference _ _ | member _ _ _ | dereference _ _ | addressOf _ => cases htarget
        | this _ | method _ => exact absurd rfl hknown
        | compound parts =>
            rw [designates_compound, not_and_or, not_not] at hother
            rcases hother with hnone | hother
            · exact .computed hknown hnone
            · simp only [not_forall] at hother
              obtain ⟨child, hchild, hother⟩ := hother
              exact .elsewhere hknown hchild hother

end Strays

end CppContextEngine.Analyzer
