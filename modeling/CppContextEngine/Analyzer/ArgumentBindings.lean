import CppContextEngine.Analysis.Interprocedural
import CppContextEngine.Analyzer.ArgumentSearch
import CppContextEngine.Analyzer.SinkClashes
import CppContextEngine.Foundation.FirstPerKey
import CppContextEngine.Foundation.Reorder

/-!
# The bindings of call arguments

For each argument of a call the analyzer emits a fact under the place of the
argument in the list that Clang gives.  The solver looks a binding up under the
place of a parameter: the two agree unless the object of an operator comes first.
-/

namespace CppContextEngine.Analyzer

open CppContextEngine.Analysis CppContextEngine.Foundation CppContextEngine.Models

/-! ## Calls -/

inductive CallForm where
  | plain
  | member
  /-- A member operator, as in the call of a lambda or a functor. -/
  | memberOperator
  | freeOperator
  | indirect
  deriving DecidableEq, Repr

/-- The place in `arguments()` of the expression that initialises a parameter: for a member
operator the object comes first, and it is no parameter. -/
def CallForm.argumentIndex : CallForm → Nat → Nat
  | .memberOperator, parameter => parameter + 1
  | .plain, parameter | .member, parameter | .freeOperator, parameter
  | .indirect, parameter => parameter

/-- `parameterMode` -/
inductive ParameterMode where
  | rvalueReference
  | constReference
  | reference
  | constPointer
  | pointer
  | value
  deriving DecidableEq, Repr

/-- A parameter's mode, and whether it is a reference to what is not const. -/
structure Parameter where
  mode : ParameterMode
  mutableReference : Bool
  deriving DecidableEq, Repr

/-- `getDirectCallee` -/
structure Callee where
  parameters : List Parameter
  effectFree : Bool
  deriving DecidableEq, Repr

/-- An argument, and whether its type is a pointer or a reference. -/
structure Argument where
  expression : ArgumentExpr
  indirect : Bool

structure CallExpr where
  site : SinkKeys.CallSite
  form : CallForm
  callee : Option Callee
  arguments : List Argument

namespace CallExpr

variable (call : CallExpr)

/-- `callee->getParamDecl(index)` -/
def parameter? (index : Nat) : Option Parameter :=
  call.callee.bind fun callee => callee.parameters[index]?

def writebackCandidate (argument : Argument) (index : Nat) : Bool :=
  match call.parameter? index with
  | some parameter =>
      parameter.mode = .reference || parameter.mode = .rvalueReference ||
        parameter.mode = .pointer
  | none => argument.indirect

def escapedStorage (argument : Argument) (index : Nat) : Option ArgumentExpr :=
  if (call.parameter? index).any Parameter.mutableReference then some argument.expression
  else
    match argument.expression with
    | .addressOf operand => some operand
    | _ => none

/-- One round of the loop over the arguments; escaping storage is named too. -/
def bindArgument (argument : Argument) (index : Nat) (locations : Locations) :
    (LocationKey × Bool) × Locations :=
  let (bound, locations) :=
    summaryLocationForExpr argument.expression.boundStorage locations
  let locations :=
    if call.callee.any Callee.effectFree then locations
    else
      match call.escapedStorage argument index with
      | some storage => (locationForLValue storage.lvalue locations).2
      | none => locations
  ((bound, call.writebackCandidate argument index), locations)

def bindArguments : List Argument → Nat → Locations → List (LocationKey × Bool) × Locations
  | [], _, locations => ([], locations)
  | argument :: rest, index, locations =>
      let (bound, locations) := call.bindArgument argument index locations
      let (others, locations) := bindArguments rest (index + 1) locations
      (bound :: others, locations)

/-- `argumentLocations` and `writebackCandidates` of the call's `SummaryCallRecord`. -/
def summaryCall (locations : Locations) : List (LocationKey × Bool) × Locations :=
  call.bindArguments call.arguments 0 locations

end CallExpr

/-- A call with the table of its function before its arguments and after all of the body. -/
structure SummarizedCall extends CallExpr where
  before : Locations
  last : Locations
  parameterLocations : List LocationKey
  wellformed : before.Wellformed
  lastWellformed : last.Wellformed
  later : Locations.Later (toCallExpr.summaryCall before).2 last

/-! ## Facts -/

/-- `call_argument_binding_v1` -/
structure BindingFact where
  site : SinkKeys.CallSite
  index : Nat
  location : Option LocationKey
  locationKind : String
  accessPath : List String
  writebackCandidate : Bool
  complete : Bool
  parameterIndex : Option Nat

/-- The sort key that the fact is added under. -/
def BindingFact.sortKey (fact : BindingFact) : String :=
  "call-argument-binding:" ++ fact.site.key ++ ":" ++ toString fact.index

def BindingFact.incompleteReason (fact : BindingFact) : String :=
  if fact.complete then "" else "unknown_argument_storage"

/-- `rootParameterIndex` -/
def rootParameterIndex (parameters : List LocationKey) (locations : Locations) :
    LocationKey → Option Nat
  | .dereference base =>
      (parameters.idxOf? (.dereference base)).or
        (if (locations.lookup (.dereference base)).isSome then
          rootParameterIndex parameters locations base else none)
  | .field base name =>
      (parameters.idxOf? (.field base name)).or
        (if (locations.lookup (.field base name)).isSome then
          rootParameterIndex parameters locations base else none)
  | .unknown => parameters.idxOf? .unknown
  | .this => parameters.idxOf? .this
  | .returned => parameters.idxOf? .returned
  | .callReturn offset => parameters.idxOf? (.callReturn offset)
  | .declaration key => parameters.idxOf? (.declaration key)

namespace SummarizedCall

variable (call : SummarizedCall)

/-- The fact of the argument at `index`. -/
def fact (bound : LocationKey × Bool) (index : Nat) : BindingFact :=
  match call.last.lookup bound.1 with
  | some record =>
      if bound.1 = .unknown then ⟨call.site, index, none, "unknown", [], bound.2, false, none⟩
      else ⟨call.site, index, some bound.1, record.kind, record.accessPath, bound.2, true,
        rootParameterIndex call.parameterLocations call.last bound.1⟩
  | none => ⟨call.site, index, none, "unknown", [], bound.2, false, none⟩

/-- The loop over `argumentLocations` -/
def facts : List BindingFact :=
  (call.summaryCall call.before).1.zipIdx.map fun bound => call.fact bound.1 bound.2

end SummarizedCall

/-- The facts in their order, each with its call and its argument. -/
def placedFacts (unit : List SummarizedCall) : List ((Nat × Nat) × BindingFact) :=
  unit.zipIdx.flatMap fun call =>
    call.1.facts.zipIdx.map fun fact => ((call.2, fact.2), fact.1)

/-- What the sink lets through. -/
def keptFacts (unit : List SummarizedCall) : List ((Nat × Nat) × BindingFact) :=
  firstPerKey (fun entry => entry.2.sortKey) (placedFacts unit)

/-! ## Rows -/

/-- The identifiers that rows get for keys. -/
structure RowIds where
  summary : String → String
  callsite : String → String
  location : LocationKey → String
  binding : String → String → Nat → String
  named : ∀ owner site index, isBlank (binding owner site index) = false ∧
    isBlank (summary owner) = false ∧ isBlank (callsite site) = false
  callsite_injective : Function.Injective callsite

/-- `_call_argument_binding_fact` -/
def RowIds.row (ids : RowIds) (fact : BindingFact) : CallArgumentBinding where
  id := ids.binding (summaryKey fact.site.owner.text) fact.site.key fact.index
  callerSummaryId := ids.summary (summaryKey fact.site.owner.text)
  callsiteId := ids.callsite fact.site.key
  argumentIndex := fact.index
  locationId := fact.location.map ids.location
  locationKind := (StrEnum.ofValue? fact.locationKind).getD .unknown
  parameterIndex := fact.parameterIndex
  accessPath := fact.accessPath
  writebackCandidate := fact.writebackCandidate
  complete := fact.complete
  incompleteReason := fact.incompleteReason
  identified := ids.named _ _ _
  agrees := by
    unfold BindingFact.incompleteReason
    cases fact.complete <;> decide

/-! ## What is recorded for an argument -/

section Recorded

open Locations

variable (call : CallExpr) {locations : Locations}

/-- The storage that is bound, once the table is at least `last`. -/
def CallExpr.bound (last : Locations) (argument : Argument) (index : Nat) : LocationKey × Bool :=
  (argument.expression.boundStorage.mention last.naming, call.writebackCandidate argument index)

theorem bindArgument_spec (argument : Argument) (index : Nat) (h : Wellformed locations) :
    Later locations (call.bindArgument argument index locations).2 ∧
      Wellformed (call.bindArgument argument index locations).2 ∧
      ∀ last, Later (call.bindArgument argument index locations).2 last → Wellformed last →
        (call.bindArgument argument index locations).1 = call.bound last argument index ∧
          (last.lookup (call.bindArgument argument index locations).1.1).isSome := by
  have hfinds := finds_summaryLocationForExpr argument.expression.boundStorage h
  have hescape : ∀ table, Wellformed table → ∀ storage : Option ArgumentExpr,
      Later table (match storage with
        | some storage => (locationForLValue storage.lvalue table).2
        | none => table) ∧
      Wellformed (match storage with
        | some storage => (locationForLValue storage.lvalue table).2
        | none => table) := by
    intro table htable storage
    cases storage with
    | none => exact ⟨.refl table, htable⟩
    | some storage =>
        have hnames := names_lvalue storage.lvalue htable
        exact ⟨hnames.later, hnames.wellformed⟩
  have hlater : Later (summaryLocationForExpr argument.expression.boundStorage locations).2
      (call.bindArgument argument index locations).2 ∧
      Wellformed (call.bindArgument argument index locations).2 := by
    simp only [CallExpr.bindArgument]
    split
    · exact ⟨.refl _, hfinds.wellformed⟩
    · exact hescape _ hfinds.wellformed _
  refine ⟨hfinds.later.trans hlater.1, hlater.2, fun last hlast hlastWell => ?_⟩
  have hall := hlater.1.trans hlast
  have hbound : (call.bindArgument argument index locations).1 =
      ((summaryLocationForExpr argument.expression.boundStorage locations).1,
        call.writebackCandidate argument index) := rfl
  rw [hbound]
  refine ⟨?_, hall.isSome hfinds.found⟩
  unfold CallExpr.bound
  rw [hfinds.mentioned last hall hlastWell]

theorem bindArguments_spec (arguments : List Argument) : ∀ (index : Nat) {locations : Locations},
    Wellformed locations →
      Later locations (call.bindArguments arguments index locations).2 ∧
      Wellformed (call.bindArguments arguments index locations).2 ∧
      ∀ last, Later (call.bindArguments arguments index locations).2 last → Wellformed last →
        (call.bindArguments arguments index locations).1 =
            (arguments.zipIdx index).map (fun entry => call.bound last entry.1 entry.2) ∧
          ∀ bound ∈ (call.bindArguments arguments index locations).1,
            (last.lookup bound.1).isSome := by
  induction arguments with
  | nil =>
      intro index locations h
      exact ⟨.refl _, h, fun last _ _ => ⟨rfl, by simp [CallExpr.bindArguments]⟩⟩
  | cons argument rest ih =>
      intro index locations h
      obtain ⟨hfirst, hfirstWell, hbound⟩ := bindArgument_spec call argument index h
      obtain ⟨hrest, hrestWell, hothers⟩ := ih (index + 1) hfirstWell
      refine ⟨hfirst.trans hrest, hrestWell, fun last hlast hlastWell => ?_⟩
      obtain ⟨hone, hfound⟩ := hbound last (hrest.trans hlast) hlastWell
      obtain ⟨hmany, hall⟩ := hothers last hlast hlastWell
      refine ⟨?_, ?_⟩
      · rw [List.zipIdx_cons, List.map_cons, ← hone, ← hmany]
        rfl
      · intro bound hmem
        rcases List.mem_cons.mp hmem with rfl | hmem
        · exact hfound
        · exact hall bound hmem

end Recorded

namespace SummarizedCall

variable (call : SummarizedCall)

/-- The fact that is emitted for an argument. -/
def factOf (argument : Argument) (index : Nat) : BindingFact :=
  call.fact (call.bound call.last argument index) index

@[simp] theorem factOf_site (argument : Argument) (index : Nat) :
    (call.factOf argument index).site = call.site := by
  unfold factOf fact
  split
  · split <;> rfl
  · rfl

@[simp] theorem factOf_index (argument : Argument) (index : Nat) :
    (call.factOf argument index).index = index := by
  unfold factOf fact
  split
  · split <;> rfl
  · rfl

theorem facts_eq : call.facts =
    call.arguments.zipIdx.map fun entry => call.factOf entry.1 entry.2 := by
  obtain ⟨-, -, hall⟩ := bindArguments_spec call.toCallExpr call.arguments 0 call.wellformed
  have hbound := (hall call.last call.later call.lastWellformed).1
  unfold facts CallExpr.summaryCall
  rw [hbound, List.zipIdx_map, List.map_map]
  have hindices : ∀ (arguments : List Argument) (index : Nat),
      (arguments.zipIdx index).zipIdx index =
        (arguments.zipIdx index).map fun entry => (entry, entry.2) := by
    intro arguments
    induction arguments with
    | nil => simp
    | cons argument rest ih => simp [ih]
  rw [hindices, List.map_map]
  rfl

/-- A fact is complete when the argument mentions one storage. -/
theorem factOf_location {argument : Argument} {index : Nat}
    (hargument : call.arguments[index]? = some argument) :
    ((call.factOf argument index).complete = true ↔
        argument.expression.boundStorage.mention call.last.naming ≠ .unknown) ∧
      ((call.factOf argument index).complete = true → (call.factOf argument index).location =
        some (argument.expression.boundStorage.mention call.last.naming)) := by
  obtain ⟨-, -, hall⟩ := bindArguments_spec call.toCallExpr call.arguments 0 call.wellformed
  obtain ⟨hbound, hfound⟩ := hall call.last call.later call.lastWellformed
  have hmem : call.bound call.last argument index ∈
      (call.bindArguments call.arguments 0 call.before).1 := by
    rw [hbound]
    refine List.mem_map.mpr ⟨(argument, index), ?_, rfl⟩
    exact List.mem_zipIdx_iff_getElem?.mpr hargument
  obtain ⟨record, hrecord⟩ := Option.isSome_iff_exists.mp (hfound _ hmem)
  unfold factOf fact
  rw [hrecord]
  simp only [CallExpr.bound]
  by_cases hunknown : argument.expression.boundStorage.mention call.last.naming = .unknown
  · simp [hunknown]
  · simp [hunknown]

end SummarizedCall

/-! ## What is looked up -/

section Lookup

variable {unit : List SummarizedCall}

theorem sortKey_inj {fact other : BindingFact} : fact.sortKey = other.sortKey ↔
    fact.site.key = other.site.key ∧ fact.index = other.index := by
  unfold BindingFact.sortKey
  rw [append_colon_nat_inj, String.append_right_inj]

theorem mem_placedFacts {place index : Nat} {fact : BindingFact} :
    ((place, index), fact) ∈ placedFacts unit ↔ ∃ call, unit[place]? = some call ∧
      ∃ argument, call.arguments[index]? = some argument ∧ fact = call.factOf argument index := by
  simp only [placedFacts, List.mem_flatMap, List.mem_map, Prod.exists, Prod.mk.injEq,
    SummarizedCall.facts_eq, List.mem_zipIdx_iff_getElem?]
  constructor
  · rintro ⟨call, _, hcall, _, _, hfact, ⟨rfl, rfl⟩, rfl⟩
    rw [List.getElem?_map, Option.map_eq_some_iff] at hfact
    obtain ⟨entry, hentry, rfl⟩ := hfact
    rw [List.getElem?_zipIdx, Option.map_eq_some_iff] at hentry
    obtain ⟨argument, hargument, rfl⟩ := hentry
    refine ⟨call, hcall, argument, hargument, ?_⟩
    simp
  · rintro ⟨call, hcall, argument, hargument, rfl⟩
    refine ⟨call, place, hcall, _, index, ?_, ⟨rfl, rfl⟩, rfl⟩
    rw [List.getElem?_map, List.getElem?_zipIdx, hargument]
    simp

/-- The order in which the facts are emitted. -/
def Earlier (entry other : (Nat × Nat) × BindingFact) : Prop :=
  entry.1.1 < other.1.1 ∨ entry.1.1 = other.1.1 ∧ entry.1.2 < other.1.2

theorem placedFacts_sorted : (placedFacts unit).Pairwise Earlier := by
  have hindices {α : Type} (elements : List α) :
      elements.zipIdx.Pairwise fun entry other => entry.2 < other.2 := by
    rw [← List.pairwise_map, List.zipIdx_map_snd]
    exact List.pairwise_lt_range'
  unfold placedFacts
  rw [List.pairwise_flatMap]
  constructor
  · intro call _
    rw [List.pairwise_map]
    exact (hindices call.1.facts).imp fun hlt => .inr ⟨rfl, hlt⟩
  · refine (hindices unit).imp fun hlt entry hentry other hother => ?_
    obtain ⟨_, -, rfl⟩ := List.mem_map.mp hentry
    obtain ⟨_, -, rfl⟩ := List.mem_map.mp hother
    exact .inl hlt

/-- No earlier call with the callsite key of `call` has an argument at `index`. -/
def FirstOfKey (unit : List SummarizedCall) (place : Nat) (call : SummarizedCall) (index : Nat) :
    Prop :=
  ∀ earlier other, earlier < place → unit[earlier]? = some other →
    other.site.key = call.site.key → other.arguments.length ≤ index

/-- A fact comes through when no earlier call has the callsite key. -/
theorem mem_keptFacts {place index : Nat} {fact : BindingFact} {call : SummarizedCall}
    (hcall : unit[place]? = some call) :
    ((place, index), fact) ∈ keptFacts unit ↔ FirstOfKey unit place call index ∧
      ∃ argument, call.arguments[index]? = some argument ∧
        fact = call.factOf argument index := by
  have hasymm : ∀ entry other : (Nat × Nat) × BindingFact,
      Earlier entry other → ¬ Earlier other entry := by
    unfold Earlier
    omega
  unfold keptFacts
  rw [mem_firstPerKey_iff hasymm placedFacts_sorted, mem_placedFacts, hcall]
  constructor
  · rintro ⟨⟨same, ⟨rfl⟩, argument, hargument, rfl⟩, hfirst⟩
    refine ⟨fun earlier other hearlier hother hkey => ?_, argument, hargument, rfl⟩
    by_contra hlong
    have hthere := List.getElem?_eq_getElem (Nat.lt_of_not_le hlong)
    have hplaced : ((earlier, index), other.factOf other.arguments[index] index) ∈
        placedFacts unit := mem_placedFacts.mpr ⟨other, hother, _, hthere, rfl⟩
    refine hfirst _ hplaced ?_ (.inl hearlier)
    rw [sortKey_inj]
    exact ⟨by simpa using hkey, by simp⟩
  · rintro ⟨hfirst, argument, hargument, rfl⟩
    refine ⟨⟨call, rfl, argument, hargument, rfl⟩, ?_⟩
    rintro ⟨⟨earlier, at_⟩, other⟩ hplaced hkey hearlier
    obtain ⟨call', hcall', argument', hargument', rfl⟩ := mem_placedFacts.mp hplaced
    obtain ⟨hsite, hindex⟩ := sortKey_inj.mp hkey
    simp only [SummarizedCall.factOf_site, SummarizedCall.factOf_index] at hsite hindex
    rcases hearlier with hbefore | ⟨-, hbefore⟩
    · have hshort := hfirst earlier call' hbefore hcall' hsite
      have hlong := (List.getElem?_eq_some_iff.mp hargument').1
      omega
    · simp only at hbefore
      omega

end Lookup

/-! ## Bindings of parameters -/

section Parameters

variable {unit : List SummarizedCall} {ids : RowIds} {p : Problem} {place : Nat}
  {call : SummarizedCall} {caller : FunctionSummary} {site : SummaryCallSiteProjection}

/-- The binding looked up for a parameter is its argument's, on the storage it designates. -/
def BindsParameter (unit : List SummarizedCall) (ids : RowIds) (p : Problem)
    (caller : FunctionSummary) (site : SummaryCallSiteProjection) (place : Nat)
    (call : SummarizedCall) (parameter : Nat) : Prop :=
  ∀ argument, call.arguments[call.form.argumentIndex parameter]? = some argument →
    ∃ fact, ((place, call.form.argumentIndex parameter), fact) ∈ keptFacts unit ∧
      p.binding? caller site parameter = some (ids.row fact) ∧
      (fact.complete = true → ∃ key, fact.location = some key ∧
        argument.expression.Designates key)

/-- The rows of a unit, looked up under their keys. -/
theorem binding_eq (hrows : p.bindings.Perm ((keptFacts unit).map fun entry => ids.row entry.2))
    {entry : (Nat × Nat) × BindingFact} (hentry : entry ∈ keptFacts unit)
    (hcaller : caller.id = ids.summary (summaryKey entry.2.site.owner.text))
    (hsite : site.id = ids.callsite entry.2.site.key) :
    p.binding? caller site entry.2.index = some (ids.row entry.2) := by
  have hdistinct : (((keptFacts unit).map fun entry => ids.row entry.2).map
      fun item : CallArgumentBinding =>
        (item.callerSummaryId, item.callsiteId, item.argumentIndex)).Nodup := by
    have hkeys : ((keptFacts unit).map fun entry => entry.2.sortKey).Nodup := nodup_firstPerKey
    rw [List.map_map]
    unfold List.Nodup at hkeys ⊢
    rw [List.pairwise_map] at hkeys ⊢
    refine hkeys.imp fun hne hsame => hne ?_
    simp only [Function.comp_apply, RowIds.row, Prod.mk.injEq] at hsame
    exact sortKey_inj.mpr ⟨ids.callsite_injective hsame.2.1, hsame.2.2⟩
  unfold Problem.binding?
  rw [← lastBy_perm hrows.symm hdistinct, hcaller, hsite]
  exact lastBy_of_nodup _ hdistinct (List.mem_map_of_mem hentry)

theorem bindsParameter_iff
    (hrows : p.bindings.Perm ((keptFacts unit).map fun entry => ids.row entry.2))
    (hcall : unit[place]? = some call)
    (hcaller : caller.id = ids.summary (summaryKey call.site.owner.text))
    (hsite : site.id = ids.callsite call.site.key) (parameter : Nat) :
    BindsParameter unit ids p caller site place call parameter ↔
      ∀ argument, call.arguments[call.form.argumentIndex parameter]? = some argument →
        call.form ≠ .memberOperator ∧ FirstOfKey unit place call parameter ∧
          ¬ Strays call.last.naming argument.expression.boundStorage := by
  refine forall₂_congr fun argument hargument => ?_
  rw [strays_iff call.last.key_of_naming]
  constructor
  · rintro ⟨fact, hkept, hfound, hcomplete⟩
    obtain ⟨hfirst, same, hsame, rfl⟩ := (mem_keptFacts hcall).mp hkept
    rw [hargument] at hsame
    obtain rfl := Option.some.inj hsame
    have hindex : call.form.argumentIndex parameter = parameter := by
      have hkey := lastBy_key _ hfound
      simp only [RowIds.row, SummarizedCall.factOf_index, Prod.mk.injEq] at hkey
      exact hkey.2.2
    refine ⟨?_, hindex ▸ hfirst, ?_⟩
    · intro hform
      simp [CallForm.argumentIndex, hform] at hindex
    · rintro ⟨hknown, hother⟩
      obtain ⟨hiff, hlocation⟩ := call.factOf_location hargument
      obtain ⟨key, hkey, hdesignates⟩ := hcomplete (hiff.mpr hknown)
      rw [hlocation (hiff.mpr hknown)] at hkey
      obtain rfl := Option.some.inj hkey
      exact hother (designates_boundStorage.mpr hdesignates)
  · rintro ⟨hform, hfirst, hdesignates⟩
    have hindex : call.form.argumentIndex parameter = parameter := by
      cases hcase : call.form <;> simp_all [CallForm.argumentIndex]
    rw [hindex] at hargument ⊢
    have hkept : ((place, parameter), call.factOf argument parameter) ∈ keptFacts unit :=
      (mem_keptFacts hcall).mpr ⟨hfirst, argument, hargument, rfl⟩
    refine ⟨_, hkept, ?_, fun hcomplete => ?_⟩
    · have hlooked := @binding_eq unit ids p caller site hrows _ hkept
        (by simpa using hcaller) (by simpa using hsite)
      simpa using hlooked
    · obtain ⟨hiff, hlocation⟩ := call.factOf_location hargument
      refine ⟨_, hlocation hcomplete, ?_⟩
      have hknown := hiff.mp hcomplete
      by_contra hother
      exact hdesignates ⟨hknown, fun h => hother (designates_boundStorage.mp h)⟩

/-- The bindings of a call are right for a callee's body exactly when the object of an operator does
not come first, the callsite key is the call's own and no argument strays. -/
theorem bindings_match_iff
    (hrows : p.bindings.Perm ((keptFacts unit).map fun entry => ids.row entry.2))
    (hcall : unit[place]? = some call)
    (hcaller : caller.id = ids.summary (summaryKey call.site.owner.text))
    (hsite : site.id = ids.callsite call.site.key) (callee : FunctionSummary) :
    (∀ parameter < callee.parameterLocationIds.length,
        BindsParameter unit ids p caller site place call parameter) ↔
      ∀ parameter < callee.parameterLocationIds.length,
        ∀ argument, call.arguments[call.form.argumentIndex parameter]? = some argument →
          call.form ≠ .memberOperator ∧ FirstOfKey unit place call parameter ∧
            ¬ Strays call.last.naming argument.expression.boundStorage :=
  forall₂_congr fun parameter _ => bindsParameter_iff hrows hcall hcaller hsite parameter

end Parameters

/-! ### A lambda, a nested call and a plain call -/

section Calls

/-- The table of a body that has named nothing. -/
def startLocations : Locations := [(.unknown, { kind := "unknown", type := {} })]

theorem wellformed_startLocations : startLocations.Wellformed where
  unknown := rfl
  fits key hkey := by
    cases key with
    | unknown | this | returned | callReturn _ | declaration _ => trivial
    | dereference _ | field _ _ => simp [startLocations] at hkey

/-- A body with one call. -/
def CallExpr.alone (call : CallExpr) : SummarizedCall where
  toCallExpr := call
  before := startLocations
  last := (call.summaryCall startLocations).2
  parameterLocations := []
  wellformed := wellformed_startLocations
  lastWellformed := (bindArguments_spec call call.arguments 0 wellformed_startLocations).2.1
  later := .refl _

def valueCallee : Callee := ⟨[⟨.value, false⟩], false⟩

def namedValue (key : String) (storage : Bool) : ArgumentExpr :=
  .reference ⟨key, "local", {}⟩ storage

def callAt (form : CallForm) (arguments : List ArgumentExpr) : CallExpr where
  site := ⟨.usr "c:@F@main#", ⟨"CallExpr", by decide⟩, ⟨.written 0 10, .written 0 13⟩⟩
  form := form
  callee := some valueCallee
  arguments := arguments.map fun expression => ⟨expression, false⟩

/-- `callback(x)` for a lambda `callback`. -/
def lambdaCall : SummarizedCall :=
  (callAt .memberOperator [namedValue "callback" true, namedValue "x" true]).alone

/-- `use(make())` -/
def nestedCall : SummarizedCall :=
  (callAt .plain [.compound (.cons false (namedValue "make" false) .nil)]).alone

/-- `use(x)` -/
def plainCall : SummarizedCall := (callAt .plain [namedValue "x" true]).alone

def plainIds : RowIds where
  summary key := "summary " ++ key
  callsite key := "callsite " ++ key
  location _ := "location"
  binding _ _ _ := "binding"
  named owner site index :=
    ⟨by decide, not_blank_append_left _ (by decide), not_blank_append_left _ (by decide)⟩
  callsite_injective := fun _ _ h => (String.append_right_inj _).mp h

/-- A solve over the bindings of one call. -/
def problemOf (call : SummarizedCall) : Problem where
  summaries := []
  localEffects := []
  localOrigins := []
  bindings := (keptFacts [call]).map fun entry => plainIds.row entry.2
  resultBindings := []
  callsites := []
  targets := []
  limits := .standard

def bodyOf (function : String) (parameters : List String) : FunctionSummary where
  id := "summary " ++ function
  functionSymbolId := "function"
  graphId := "graph"
  analysisId := "analysis"
  parameterModes := parameters.map fun _ => "value"
  parameterLocationIds := parameters
  localComplete := true
  localIncompleteReasons := []
  complete := true
  incompleteReasons := []
  recursive := false
  iterationCount := 0
  maxSccIterations := 32
  maxSccSize := 128
  maxSummaryEffects := 1024
  identified := ⟨not_blank_append_left _ (by decide), by decide, by decide⟩
  limitsPositive := InterproceduralLimits.standard.positive
  localReasonsNormalized := normalizedReasons_nil
  reasonsNormalized := normalizedReasons_nil
  localAgrees := rfl
  agrees := rfl

def siteOf (call : SummarizedCall) : SummaryCallSiteProjection where
  id := "callsite " ++ call.site.key
  ownerSymbolId := "function"
  targetSetComplete := true
  identified := ⟨not_blank_append_left _ (by decide), by decide⟩

def mainBody (call : SummarizedCall) : FunctionSummary :=
  bodyOf (summaryKey call.site.owner.text) []

/-- The parameter of a lambda is bound to the lambda, and that of `use` to a function's name. -/
theorem bindings_mismatch :
    ¬ BindsParameter [lambdaCall] plainIds (problemOf lambdaCall) (mainBody lambdaCall)
        (siteOf lambdaCall) 0 lambdaCall 0 ∧
      ¬ BindsParameter [nestedCall] plainIds (problemOf nestedCall) (mainBody nestedCall)
        (siteOf nestedCall) 0 nestedCall 0 := by
  have hlambda := @bindsParameter_iff [lambdaCall] plainIds (problemOf lambdaCall) 0 lambdaCall
    (mainBody lambdaCall) (siteOf lambdaCall) (.refl _) rfl rfl rfl 0
  have hnested := @bindsParameter_iff [nestedCall] plainIds (problemOf nestedCall) 0 nestedCall
    (mainBody nestedCall) (siteOf nestedCall) (.refl _) rfl rfl rfl 0
  rw [hlambda, hnested]
  constructor
  · intro h
    exact (h _ rfl).1 rfl
  · intro h
    exact (h _ rfl).2.2 (.computed (by decide) rfl)

/-- The parameter of `use` is bound to the variable that it gets. -/
theorem bindings_match_plainCall :
    BindsParameter [plainCall] plainIds (problemOf plainCall) (mainBody plainCall)
      (siteOf plainCall) 0 plainCall 0 := by
  apply (bindings_match_iff (.refl _) rfl rfl rfl (bodyOf "use" ["v"])).mpr
  · intro parameter hparameter argument hargument
    have hzero : parameter = 0 := Nat.lt_one_iff.mp hparameter
    subst hzero
    cases hargument
    refine ⟨by decide, fun earlier _ hearlier => absurd hearlier (Nat.not_lt_zero _), ?_⟩
    rw [strays_iff plainCall.last.key_of_naming]
    rintro ⟨-, hother⟩
    exact hother (by decide)
  · show 0 < 1
    omega

end Calls

end CppContextEngine.Analyzer
