import Mathlib.Logic.Relation

/-!
# Class hierarchies and dynamic dispatch

Classes with any number of base classes, virtual ones among them, and the final
overrider of a member function in an object.  An object has one subobject for
every way down to a base class that is not virtual, and one for every virtual
base class.
-/

namespace CppContextEngine.Foundation

/-- Classes and the member functions that they declare. -/
structure Hierarchy (Class Method : Type) where
  /-- The direct base classes, and whether each of them is a virtual one. -/
  bases : Class → List (Class × Bool)
  parent : Method → Class
  /-- The name and the parameter types, on which overriding depends. -/
  signature : Method → String
  isVirtual : Method → Bool
  isFinal : Method → Bool
  isEffectivelyFinal : Class → Bool
  distinct : ∀ method method', parent method = parent method' →
    signature method = signature method' → method = method'
  /-- No class derives from a final one. -/
  final_class : ∀ derived, ∀ base ∈ bases derived, isEffectivelyFinal base.1 = false
  /-- No class overrides a final function of its base classes. -/
  final_method : ∀ method method', isFinal method = true → signature method' = signature method →
    ¬ Relation.TransGen (fun derived base => ∃ shared, (base, shared) ∈ bases derived)
      (parent method') (parent method)

/-- A part of an object: where it begins, and the direct bases that lead to it. -/
structure Subobject (Class : Type) where
  root : Class
  path : List Class := []

namespace Hierarchy

variable {Class Method : Type} (h : Hierarchy Class Method)

def DirectBase (derived base : Class) : Prop :=
  ∃ shared, (base, shared) ∈ h.bases derived

end Hierarchy

namespace Subobject

variable {Class Method : Type}

/-- The class of a part. -/
def type (part : Subobject Class) : Class :=
  part.path.getLast?.getD part.root

/-- The part for a direct base class: a virtual one is the same in the whole object. -/
def down (part : Subobject Class) (base : Class) (shared : Bool) : Subobject Class :=
  if shared then ⟨base, []⟩ else ⟨part.root, part.path ++ [base]⟩

@[simp] theorem type_down (part : Subobject Class) (base : Class) (shared : Bool) :
    (part.down base shared).type = base := by
  cases shared <;> simp [down, type]

/-- `inner` is a direct base class subobject of `outer`. -/
def Holds (h : Hierarchy Class Method) (outer inner : Subobject Class) : Prop :=
  ∃ base shared, (base, shared) ∈ h.bases outer.type ∧ inner = outer.down base shared

/-- `inner` is `outer` or one of its base class subobjects. -/
def Within (h : Hierarchy Class Method) : Subobject Class → Subobject Class → Prop :=
  Relation.ReflTransGen (Holds h)

variable {h : Hierarchy Class Method} {outer inner : Subobject Class}

theorem directBase_of_holds (hholds : Holds h outer inner) :
    h.DirectBase outer.type inner.type := by
  obtain ⟨base, shared, hbase, rfl⟩ := hholds
  rw [type_down]
  exact ⟨shared, hbase⟩

/-- A part is the whole or belongs to one of its base classes. -/
theorem derives_of_within (hwithin : Within h outer inner) :
    outer = inner ∨ Relation.TransGen h.DirectBase outer.type inner.type := by
  induction hwithin with
  | refl => exact .inl rfl
  | tail _ hholds ih =>
      have hlast := directBase_of_holds hholds
      rcases ih with rfl | hderives
      · exact .inr (.single hlast)
      · exact .inr (hderives.tail hlast)

end Subobject

/-! ## Dispatch -/

namespace Hierarchy

variable {Class Method : Type} (h : Hierarchy Class Method)

/--
`overrider` is what a virtual call of `method` runs in an object of class `dynamic`:
`method` is the function of the part `place`, and no other part around `place`
declares a function of that signature unless `overrider` is further out.
-/
def FinalOverrider (dynamic : Class) (place : Subobject Class) (method overrider : Method) : Prop :=
  place.type = h.parent method ∧
    ∃ part, Subobject.Within h ⟨dynamic, []⟩ part ∧ Subobject.Within h part place ∧
      h.parent overrider = part.type ∧ h.signature overrider = h.signature method ∧
      ∀ other, Subobject.Within h ⟨dynamic, []⟩ other → Subobject.Within h other place →
        (∃ declared, h.parent declared = other.type ∧
          h.signature declared = h.signature method) →
        Subobject.Within h part other

variable {h} {dynamic : Class} {place : Subobject Class} {method overrider : Method}

/-- A function is dispatched to itself or to one of a derived class. -/
theorem overrides_of_finalOverrider (hfinal : h.FinalOverrider dynamic place method overrider) :
    overrider = method ∨ h.signature overrider = h.signature method ∧
      Relation.TransGen h.DirectBase (h.parent overrider) (h.parent method) := by
  obtain ⟨hplace, part, -, hpart, hparent, hsignature, -⟩ := hfinal
  rcases Subobject.derives_of_within hpart with rfl | hderives
  · exact .inl (h.distinct _ _ (hparent.trans hplace) hsignature)
  · rw [← hparent, hplace] at hderives
    exact .inr ⟨hsignature, hderives⟩

theorem finalOverrider_of_isFinal (hmethod : h.isFinal method = true)
    (hfinal : h.FinalOverrider dynamic place method overrider) : overrider = method := by
  rcases overrides_of_finalOverrider hfinal with hsame | ⟨hsignature, hderives⟩
  · exact hsame
  · exact absurd hderives (h.final_method method overrider hmethod hsignature)

theorem finalOverrider_of_isEffectivelyFinal
    (hclass : h.isEffectivelyFinal (h.parent method) = true)
    (hfinal : h.FinalOverrider dynamic place method overrider) : overrider = method := by
  rcases overrides_of_finalOverrider hfinal with hsame | ⟨-, hderives⟩
  · exact hsame
  · obtain ⟨derived, -, shared, hbase⟩ := Relation.TransGen.tail'_iff.mp hderives
    have hopen := h.final_class derived _ hbase
    rw [hclass] at hopen
    cases hopen

end Hierarchy

end CppContextEngine.Foundation
