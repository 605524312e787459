import CppContextEngine.Foundation.Dispatch
import CppContextEngine.Models.Calls

/-!
# The targets of a call

`Collector::emitCallsite` decides what a call can run from its static callee,
and `emitResolvedCallsite` writes the callsite and its target.  A call with a
complete target set runs its target, unless it is an unqualified call of a
virtual call operator: the case for function objects comes before the test for
virtual functions.
-/

namespace CppContextEngine.Analyzer.CallTargets

open CppContextEngine.Foundation CppContextEngine.Models

/-! ## Programs and calls -/

inductive FunctionDecl (Method Free : Type) where
  | free (function : Free)
  | method (method : Method)
  deriving DecidableEq

/-- The declarations of all translation units, and which of them belong to the project. -/
structure Program (Class Method Free : Type) extends Hierarchy Class Method where
  isLambda : Class → Bool
  /-- `getOverloadedOperator() == OO_Call` -/
  isCallOperator : Method → Bool
  /-- `getPrimaryTemplate() != nullptr` -/
  fromTemplate : Method → Bool
  /-- The declaration is in a project file, so `emitSymbol` has a key for it. -/
  indexed : FunctionDecl Method Free → Bool
  lambda_not_virtual : ∀ method, isLambda (parent method) = true → isVirtual method = false

/-- An object that a call can be made on: its dynamic type and the part the call names. -/
structure Receiver {Class Method Free : Type} (p : Program Class Method Free) where
  dynamicType : Class
  part : Subobject Class
  within : Subobject.Within p.toHierarchy ⟨dynamicType, []⟩ part

variable {Class Method Free : Type} {p : Program Class Method Free}

/-- A virtual call of `method` on `receiver` runs `overrider`. -/
def Dispatches (receiver : Receiver p) (method overrider : Method) : Prop :=
  ∃ place, Subobject.Within p.toHierarchy receiver.part place ∧
    p.FinalOverrider receiver.dynamicType place method overrider

/-- What Clang knows of a call expression. -/
structure Call (p : Program Class Method Free) where
  /-- The expression has a span and its owner is a symbol of the project. -/
  located : Bool
  /-- `getDirectCallee()` -/
  staticTarget : Option (FunctionDecl Method Free)
  dependent : Bool
  /-- The callee is a member access with a qualifier. -/
  qualified : Bool
  /-- `getDevirtualizedMethod` of a member call with an object. -/
  devirtualized : Option Method
  staticType : Class
  /-- The objects that the object expression may denote. -/
  denotes : Receiver p → Prop
  typed : ∀ receiver, denotes receiver → receiver.part.type = staticType
  devirtualizes : ∀ target, devirtualized = some target → ∀ method,
    staticTarget = some (.method method) → ∀ receiver, denotes receiver →
    ∀ overrider, Dispatches receiver method overrider → overrider = target

/-- The functions that a call with a static callee can run. -/
inductive Executes (call : Call p) : FunctionDecl Method Free → Prop where
  | free {function : Free} : call.staticTarget = some (.free function) →
      Executes call (.free function)
  | bound {method : Method} : call.staticTarget = some (.method method) →
      (p.isVirtual method = false ∨ call.qualified = true) → Executes call (.method method)
  | dispatched {method overrider : Method} {receiver : Receiver p} :
      call.staticTarget = some (.method method) → p.isVirtual method = true →
      call.qualified = false → call.denotes receiver → Dispatches receiver method overrider →
      Executes call (.method overrider)

/-! ## Facts -/

structure TargetFact (Method Free : Type) where
  target : FunctionDecl Method Free
  certainty : CallTargetCertainty
  confidence : Rat
  confidenceReason : String
  derivation : String

structure CallsiteFact (Method Free : Type) where
  dispatchKind : CallDispatchKind
  targetSetComplete : Bool
  unresolvedReason : String
  staticTarget : Option (FunctionDecl Method Free)
  targets : List (TargetFact Method Free)

/-- The arguments of `emitResolvedCallsite`; an empty certainty is none. -/
structure Resolution (Method Free : Type) where
  staticTarget : Option (FunctionDecl Method Free)
  resolvedTarget : Option (FunctionDecl Method Free)
  dispatchKind : CallDispatchKind
  complete : Bool
  unresolvedReason : String := ""
  certainty : Option CallTargetCertainty := some .certain
  confidence : Rat := 1
  derivation : String := "direct_ast"
  confidenceReason : String := ""

/-- `emitResolvedCallsite` -/
def emitResolvedCallsite (p : Program Class Method Free) (resolution : Resolution Method Free) :
    CallsiteFact Method Free :=
  let indexedStatic := resolution.staticTarget.filter p.indexed
  let indexedResolved := resolution.resolvedTarget.filter p.indexed
  let resolution :=
    if (resolution.staticTarget.isSome ∧ indexedStatic = none) ∨
        (resolution.resolvedTarget.isSome ∧ indexedResolved = none) then
      { resolution with
        complete := false
        unresolvedReason := "resolved_target_external_or_unindexed"
        certainty := none
        derivation := ""
        confidenceReason := "" }
    else resolution
  { dispatchKind := resolution.dispatchKind
    targetSetComplete := resolution.complete
    unresolvedReason := resolution.unresolvedReason
    staticTarget := indexedStatic
    targets :=
      match indexedResolved, resolution.certainty with
      | some target, some certainty =>
          [⟨target, certainty, resolution.confidence, resolution.confidenceReason,
            resolution.derivation⟩]
      | _, _ => [] }

/-- A call that runs `target` for certain. -/
def certainly (staticTarget target : FunctionDecl Method Free) (dispatchKind : CallDispatchKind)
    (derivation confidenceReason : String) : Resolution Method Free where
  staticTarget := some staticTarget
  resolvedTarget := some target
  dispatchKind := dispatchKind
  complete := true
  derivation := derivation
  confidenceReason := confidenceReason

/-- A call without a static callee. -/
def unresolved (dependent : Bool) : Resolution Method Free where
  staticTarget := none
  resolvedTarget := none
  dispatchKind := if dependent then .dependentTemplate else .unresolvedIndirect
  complete := false
  unresolvedReason :=
    if dependent then "dependent_or_uninstantiated_template"
    else "indirect_function_or_member_pointer_not_resolved"
  certainty := none
  confidence := 0
  derivation := ""

/-- A virtual call of which the static callee is a candidate. -/
def openWorld (staticTarget : FunctionDecl Method Free) : Resolution Method Free where
  staticTarget := some staticTarget
  resolvedTarget := some staticTarget
  dispatchKind := .virtual
  complete := false
  unresolvedReason := "open_world_external_overrides_possible"
  certainty := some .possible
  confidence := 3 / 4
  derivation := "static_virtual_candidate"
  confidenceReason := "the statically selected method is a candidate; confidence is a " ++
    "deterministic ranking value, not a probability"

/-- The case split of `emitCallsite`, in its order. -/
def resolve (p : Program Class Method Free) (call : Call p) : Resolution Method Free :=
  match call.staticTarget with
  | none => unresolved call.dependent
  | some (.free function) =>
      certainly (.free function) (.free function) .direct "direct_ast"
        "CallExpr::getDirectCallee selected one non-virtual function"
  | some (.method method) =>
      let itself := certainly (.method method) (.method method)
      if p.isLambda (p.parent method) ∧ p.isCallOperator method then
        if p.fromTemplate method then
          itself .genericLambda "direct_ast"
            "Clang selected a concrete generic-lambda specialization"
        else itself .lambda "direct_ast" "Clang selected the concrete lambda call operator"
      else if p.isCallOperator method then
        itself .functor "direct_ast" "Clang selected the concrete function-object call operator"
      else if ¬ p.isVirtual method then
        itself .direct "direct_ast" "CallExpr::getDirectCallee selected one non-virtual method"
      else if call.qualified then
        itself .direct "qualified_direct_ast"
          "a qualified member call suppresses virtual dispatch"
      else if p.isFinal method ∨ p.isEffectivelyFinal (p.parent method) then
        itself .devirtualized "final_dispatch"
          "the selected method or its declaring class is final"
      else
        match call.devirtualized with
        | some target =>
            certainly (.method method) (.method target) .devirtualized "clang_devirtualized"
              "CXXMethodDecl::getDevirtualizedMethod proved one target"
        | none => openWorld (.method method)

/-- `emitCallsite` -/
def emitCallsite (p : Program Class Method Free) (call : Call p) :
    Option (CallsiteFact Method Free) :=
  if call.located then some (emitResolvedCallsite p (resolve p call)) else none

/-! ## Closed calls -/

/-- What runs is among the targets of a complete set, and is every certain target. -/
def Covers (fact : CallsiteFact Method Free) (function : FunctionDecl Method Free) : Prop :=
  (fact.targetSetComplete = true → ∃ target ∈ fact.targets, target.target = function) ∧
    ∀ target ∈ fact.targets, target.certainty = .certain → target.target = function

/-- The fact of `call` covers whatever the call can run. -/
def Closed (p : Program Class Method Free) (call : Call p) : Prop :=
  ∀ fact, emitCallsite p call = some fact → ∀ function, Executes call function →
    Covers fact function

/-- An unqualified call of a virtual call operator that some object dispatches elsewhere. -/
def OpenCallOperator (p : Program Class Method Free) (call : Call p) : Prop :=
  call.located = true ∧ ∃ method, call.staticTarget = some (.method method) ∧
    p.isCallOperator method = true ∧ p.isVirtual method = true ∧ call.qualified = false ∧
    p.indexed (.method method) = true ∧
    ∃ receiver overrider, call.denotes receiver ∧ Dispatches receiver method overrider ∧
      overrider ≠ method

section Resolutions

variable {staticTarget target function : FunctionDecl Method Free}

theorem covers_certainly {dispatchKind : CallDispatchKind} {derivation confidenceReason : String} :
    Covers (emitResolvedCallsite p
        (certainly staticTarget target dispatchKind derivation confidenceReason)) function ↔
      (p.indexed staticTarget = true → p.indexed target = true → target = function) := by
  unfold Covers emitResolvedCallsite certainly
  cases hstatic : p.indexed staticTarget <;> cases htarget : p.indexed target <;>
    simp [Option.filter, hstatic, htarget]

/-- An open call claims nothing. -/
theorem covers_openWorld :
    Covers (emitResolvedCallsite p (openWorld staticTarget)) function := by
  unfold Covers emitResolvedCallsite openWorld
  cases hstatic : p.indexed staticTarget <;> simp [Option.filter, hstatic]

end Resolutions

section Decision

variable {call : Call p} {method : Method} {function : FunctionDecl Method Free}

/-- A call that suppresses dynamic dispatch runs its static callee. -/
theorem executes_bound (htarget : call.staticTarget = some (.method method))
    (hbound : p.isVirtual method = false ∨ call.qualified = true)
    (h : Executes call function) : function = .method method := by
  cases h with
  | free hfree => simp [htarget] at hfree
  | bound hmethod => simp_all
  | dispatched hmethod hvirtual hqualified =>
      simp_all

/-- A virtual call runs what its receiver dispatches to. -/
theorem executes_dispatched (htarget : call.staticTarget = some (.method method))
    (hvirtual : p.isVirtual method = true) (hqualified : call.qualified = false)
    (h : Executes call function) : ∃ receiver overrider, call.denotes receiver ∧
      Dispatches receiver method overrider ∧ function = .method overrider := by
  cases h with
  | free hfree => simp [htarget] at hfree
  | bound hmethod hbound => simp_all
  | @dispatched other overrider receiver hmethod _ _ hdenotes hdispatches =>
      obtain rfl : method = other := by simpa [htarget] using hmethod
      exact ⟨receiver, overrider, hdenotes, hdispatches, rfl⟩

/-- Every kind of call but that of a call operator is closed when it says so. -/
theorem covers_of_not_callOperator (htarget : call.staticTarget = some (.method method))
    (hoperator : p.isCallOperator method = false) (h : Executes call function) :
    Covers (emitResolvedCallsite p (resolve p call)) function := by
  simp only [resolve, htarget, hoperator, Bool.false_eq_true, and_false, ↓reduceIte]
  by_cases hvirtual : p.isVirtual method = true
  swap
  · rw [if_pos hvirtual, covers_certainly]
    rw [executes_bound htarget (.inl (by simpa using hvirtual)) h]
    exact fun _ _ => rfl
  rw [if_neg (not_not.mpr hvirtual)]
  by_cases hqualified : call.qualified = true
  · rw [if_pos hqualified, covers_certainly, executes_bound htarget (.inr hqualified) h]
    exact fun _ _ => rfl
  rw [if_neg hqualified]
  obtain ⟨receiver, overrider, hdenotes, ⟨place, hplace, hfinal⟩, rfl⟩ :=
    executes_dispatched htarget hvirtual (by simpa using hqualified) h
  split
  · rename_i hclosed
    rw [covers_certainly]
    intro _ _
    rcases hclosed with hmethod | hclass
    · rw [Hierarchy.finalOverrider_of_isFinal hmethod hfinal]
    · rw [Hierarchy.finalOverrider_of_isEffectivelyFinal hclass hfinal]
  · split
    · rename_i target hdevirtualized
      rw [covers_certainly, call.devirtualizes target hdevirtualized method htarget receiver
        hdenotes overrider ⟨place, hplace, hfinal⟩]
      exact fun _ _ => rfl
    · exact covers_openWorld

/-- A call operator is taken to run itself. -/
theorem covers_callOperator (htarget : call.staticTarget = some (.method method))
    (hoperator : p.isCallOperator method = true) :
    Covers (emitResolvedCallsite p (resolve p call)) function ↔
      (p.indexed (.method method) = true → .method method = function) := by
  simp only [resolve, htarget, hoperator, and_true, ↓reduceIte]
  split
  · split <;> simp [covers_certainly]
  · simp [covers_certainly]

theorem not_closed_of_openCallOperator (h : OpenCallOperator p call) : ¬ Closed p call := by
  obtain ⟨hlocated, method, htarget, hoperator, hvirtual, hqualified, hindexed, receiver,
    overrider, hdenotes, hdispatches, hne⟩ := h
  intro hclosed
  have hcovers := hclosed _ (if_pos hlocated) _
    (.dispatched htarget hvirtual hqualified hdenotes hdispatches)
  rw [covers_callOperator htarget hoperator] at hcovers
  exact hne (FunctionDecl.method.inj (hcovers hindexed)).symm

/--
The fact of a call covers whatever the call can run, unless it is an unqualified
call of a virtual call operator of the project that some object dispatches
elsewhere.
-/
theorem closed_iff (p : Program Class Method Free) (call : Call p) :
    Closed p call ↔ ¬ OpenCallOperator p call := by
  constructor
  · exact fun hclosed hopen => not_closed_of_openCallOperator hopen hclosed
  · unfold Closed emitCallsite
    intro hopen fact hfact function hexecutes
    obtain ⟨hlocated, hfact⟩ := Option.ite_none_right_eq_some.mp hfact
    obtain rfl := Option.some.inj hfact
    cases htarget : call.staticTarget with
    | none => cases hexecutes <;> simp_all
    | some target =>
        cases target with
        | free free =>
            have hfree : function = .free free := by cases hexecutes <;> simp_all
            simp [resolve, htarget, covers_certainly, hfree]
        | method method =>
            cases hoperator : p.isCallOperator method with
            | false => exact covers_of_not_callOperator htarget hoperator hexecutes
            | true =>
                rw [covers_callOperator htarget hoperator]
                intro hindexed
                by_contra hne
                by_cases hbound : p.isVirtual method = false ∨ call.qualified = true
                · exact hne (executes_bound htarget hbound hexecutes).symm
                · simp only [not_or, Bool.not_eq_false, Bool.not_eq_true] at hbound
                  obtain ⟨receiver, overrider, hdenotes, hdispatches, rfl⟩ :=
                    executes_dispatched htarget hbound.1 hbound.2 hexecutes
                  exact hopen ⟨hlocated, method, htarget, hoperator, hbound.1, hbound.2, hindexed,
                    receiver, overrider, hdenotes, hdispatches, fun h => hne (h ▸ rfl)⟩

end Decision

/-! ## A call through a base class -/

/-- `false` declares a virtual call operator, and `true` derives from it and overrides it. -/
def functors : Program Bool Bool Empty where
  bases := fun derived => if derived then [(false, false)] else []
  parent := id
  signature := fun _ => "operator()(int)"
  isVirtual := fun _ => true
  isFinal := fun _ => false
  isEffectivelyFinal := fun _ => false
  distinct := fun _ _ hparent _ => hparent
  final_class := fun _ _ _ => rfl
  final_method := fun _ _ hfinal => by simp at hfinal
  isLambda := fun _ => false
  isCallOperator := fun _ => true
  fromTemplate := fun _ => false
  indexed := fun _ => true
  lambda_not_virtual := fun _ hlambda => by simp at hlambda

/-- `f(1)`, where `f` is a reference to the base class. -/
def functorCall : Call functors where
  located := true
  staticTarget := some (.method false)
  dependent := false
  qualified := false
  devirtualized := none
  staticType := false
  denotes := fun receiver => receiver.part.type = false
  typed := fun _ htype => htype
  devirtualizes := fun _ hsome => by simp at hsome

theorem base_within_derived :
    Subobject.Within functors.toHierarchy ⟨true, []⟩ ⟨true, [false]⟩ :=
  .single ⟨false, false, by simp [functors, Subobject.type], by simp [Subobject.down]⟩

/-- The fact says that the base class function runs, and that of the derived class does. -/
theorem functorCall_not_closed : ¬ Closed functors functorCall := by
  apply not_closed_of_openCallOperator
  refine ⟨rfl, false, rfl, rfl, rfl, rfl, rfl, ⟨true, ⟨true, [false]⟩, base_within_derived⟩, true,
    rfl, ⟨⟨true, [false]⟩, .refl, rfl, ⟨true, []⟩, .refl, base_within_derived, rfl, rfl, ?_⟩, ?_⟩
  · exact fun _ hother _ _ => hother
  · simp

end CppContextEngine.Analyzer.CallTargets
