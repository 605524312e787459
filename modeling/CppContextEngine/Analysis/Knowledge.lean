import CppContextEngine.Analysis.Keys
import Mathlib.Order.CompletePartialOrder

/-!
# What rounds make known

A view of the facts is monotone when one transfer computes it from the views of
the callees alone.  Effect keys, origin keys and incompleteness are such views,
and each takes finitely many values, so the rounds over a component stop
changing it.
-/

namespace CppContextEngine.Analysis

open CppContextEngine.Foundation CppContextEngine.Models

variable [Fingerprint]

namespace Problem

/-- The effects of `caller` are not cut in `current`. -/
def Fits (p : Problem) (current : Environment) (caller : FunctionSummary) : Prop :=
  (p.transferDraft current caller).effects.items.length ≤ p.limits.maxSummaryEffects

/-- A view of the facts that one transfer computes monotonically. -/
structure View (p : Problem) (κ : Type) where
  keys : Facts → Set κ
  own : FunctionSummary → Set κ
  lift : FunctionSummary → CallEdge → κ → Option κ
  range : Set κ
  initial : ∀ summary ∈ p.summaries, keys
    ⟨p.localEffectsOf summary.id, p.localOriginsOf summary.id, Reasons.ofLocal summary⟩ ⊆
      own summary
  transfer : ∀ current caller, p.Fits current caller → ∀ key,
    key ∈ keys (p.transfer current caller) ↔ key ∈ own caller ∨
      ∃ edge ∈ p.callerEdges caller, ∃ facts, current[edge.callee.id]? = some facts ∧
        ∃ source ∈ keys facts, lift caller edge source = some key
  finite : range.Finite
  own_range : ∀ caller ∈ p.summaries, own caller ⊆ range
  lift_range : ∀ caller ∈ p.summaries, ∀ edge ∈ p.callerEdges caller, ∀ source ∈ range, ∀ key,
    lift caller edge source = some key → key ∈ range

namespace View

variable {p : Problem} {κ : Type} (view : p.View κ) {members : List FunctionSummary}
  {current : Environment}

/-- What `current` knows of each summary. -/
def known (current : Environment) : Set (String × κ) :=
  {entry | ∃ facts, current[entry.1]? = some facts ∧ entry.2 ∈ view.keys facts}

/-- What a round over `members` knows, in terms of what was known before it. -/
def advance (members : List FunctionSummary) (known : Set (String × κ)) : Set (String × κ) :=
  {entry | (entry ∈ known ∧ entry.1 ∉ members.map FunctionSummary.id) ∨
    ∃ caller ∈ members, caller.id = entry.1 ∧ (entry.2 ∈ view.own caller ∨
      ∃ edge ∈ p.callerEdges caller, ∃ source, (edge.callee.id, source) ∈ known ∧
        view.lift caller edge source = some entry.2)}

theorem advance_mono : Monotone (view.advance members) := by
  rintro known known' hsub entry (⟨hknown, hid⟩ | ⟨caller, hcaller, hid, hentry⟩)
  · exact .inl ⟨hsub hknown, hid⟩
  · refine .inr ⟨caller, hcaller, hid, hentry.imp_right ?_⟩
    rintro ⟨edge, hedge, source, hsource, hlift⟩
    exact ⟨edge, hedge, source, hsub hsource, hlift⟩

/-- The keys of a transfer depend on what is known only. -/
theorem mem_keys_transfer {caller : FunctionSummary} (hfits : p.Fits current caller) {key : κ} :
    key ∈ view.keys (p.transfer current caller) ↔ key ∈ view.own caller ∨
      ∃ edge ∈ p.callerEdges caller, ∃ source, (edge.callee.id, source) ∈ view.known current ∧
        view.lift caller edge source = some key := by
  rw [view.transfer current caller hfits]
  refine or_congr_right (exists_congr fun edge => and_congr_right fun _ => ?_)
  constructor
  · rintro ⟨facts, hfacts, source, hsource, hlift⟩
    exact ⟨source, ⟨facts, hfacts, hsource⟩, hlift⟩
  · rintro ⟨source, ⟨facts, hfacts, hsource⟩, hlift⟩
    exact ⟨facts, hfacts, source, hsource, hlift⟩

theorem keys_transfer_congr {current' : Environment} {caller : FunctionSummary}
    (hfits : p.Fits current caller) (hfits' : p.Fits current' caller)
    (h : view.known current = view.known current') :
    view.keys (p.transfer current caller) = view.keys (p.transfer current' caller) := by
  ext key
  rw [view.mem_keys_transfer hfits, view.mem_keys_transfer hfits', h]

theorem known_round (hnodup : (members.map FunctionSummary.id).Nodup)
    (hfits : ∀ caller ∈ members, p.Fits current caller) :
    view.known (p.round members current) = view.advance members (view.known current) := by
  ext ⟨id, key⟩
  by_cases hid : id ∈ members.map FunctionSummary.id
  · obtain ⟨caller, hcaller, rfl⟩ := List.mem_map.mp hid
    constructor
    · rintro ⟨facts, hfacts, hkey⟩
      rw [round_member hnodup hcaller, Option.some.injEq] at hfacts
      subst hfacts
      exact .inr ⟨caller, hcaller, rfl, (view.mem_keys_transfer (hfits caller hcaller)).mp hkey⟩
    · rintro (⟨-, habsent⟩ | ⟨other, hother, hsame, hkey⟩)
      · exact absurd hid habsent
      · obtain rfl := List.inj_on_of_nodup_map hnodup hother hcaller hsame
        exact ⟨_, round_member hnodup hother current,
          (view.mem_keys_transfer (hfits other hother)).mpr hkey⟩
  · constructor
    · rintro ⟨facts, hfacts, hkey⟩
      rw [round_frame hid] at hfacts
      exact .inl ⟨⟨facts, hfacts, hkey⟩, hid⟩
    · rintro (⟨⟨facts, hfacts, hkey⟩, -⟩ | ⟨caller, hcaller, hsame, -⟩)
      · exact ⟨facts, by rw [round_frame hid]; exact hfacts, hkey⟩
      · exact absurd (List.mem_map.mpr ⟨caller, hcaller, hsame⟩) hid

theorem known_environmentAt (hnodup : (members.map FunctionSummary.id).Nodup) {pass : Nat}
    (hfits : ∀ earlier < pass, ∀ caller ∈ members,
      p.Fits (p.environmentAt members current earlier) caller) :
    view.known (p.environmentAt members current pass) =
      (view.advance members)^[pass] (view.known current) := by
  induction pass with
  | zero => rfl
  | succ pass ih =>
      rw [environmentAt_succ, view.known_round hnodup (hfits pass (Nat.lt_succ_self pass)),
        ih fun earlier hearlier => hfits earlier (by omega), Function.iterate_succ_apply']

/-! ## Settling -/

/-- Everything that can ever be known. -/
def bound : Set (String × κ) := {id | id ∈ p.summaryIds} ×ˢ view.range

theorem bound_finite : view.bound.Finite :=
  (List.finite_toSet p.summaryIds).prod view.finite

theorem advance_bound (hmembers : ∀ caller ∈ members, caller ∈ p.summaries)
    {known : Set (String × κ)} (hknown : known ⊆ view.bound) :
    view.advance members known ⊆ view.bound := by
  rintro ⟨id, key⟩ (⟨hentry, -⟩ | ⟨caller, hcaller, rfl, hentry⟩)
  · exact hknown hentry
  · refine ⟨(p.mem_summaryIds).mpr ⟨caller, hmembers caller hcaller, rfl⟩, ?_⟩
    rcases hentry with hown | ⟨edge, hedge, source, hsource, hlift⟩
    · exact view.own_range caller (hmembers caller hcaller) hown
    · exact view.lift_range caller (hmembers caller hcaller) edge hedge source
        (hknown hsource).2 key hlift

theorem iterate_bound (hmembers : ∀ caller ∈ members, caller ∈ p.summaries)
    {known : Set (String × κ)} (hknown : known ⊆ view.bound) (pass : Nat) :
    (view.advance members)^[pass] known ⊆ view.bound := by
  induction pass with
  | zero => exact hknown
  | succ pass ih =>
      rw [Function.iterate_succ_apply']
      exact view.advance_bound hmembers ih

/-- The entries of `members` are still the local ones. -/
def Untouched (p : Problem) (members : List FunctionSummary) (current : Environment) : Prop :=
  ∀ caller ∈ members, current[caller.id]? = some
    ⟨p.localEffectsOf caller.id, p.localOriginsOf caller.id, Reasons.ofLocal caller⟩

theorem known_ascends (hmembers : ∀ caller ∈ members, caller ∈ p.summaries)
    (huntouched : Untouched p members current) :
    view.known current ⊆ view.advance members (view.known current) := by
  rintro ⟨id, key⟩ ⟨facts, hfacts, hkey⟩
  by_cases hid : id ∈ members.map FunctionSummary.id
  · obtain ⟨caller, hcaller, rfl⟩ := List.mem_map.mp hid
    rw [huntouched caller hcaller, Option.some.injEq] at hfacts
    subst hfacts
    exact .inr ⟨caller, hcaller, rfl, .inl (view.initial caller (hmembers caller hcaller) hkey)⟩
  · exact .inl ⟨⟨facts, hfacts, hkey⟩, hid⟩

variable (current) in
/-- Some number of rounds makes known whatever any greater number does. -/
theorem advance_settles (hmembers : ∀ caller ∈ members, caller ∈ p.summaries)
    (huntouched : Untouched p members current) (hbound : view.known current ⊆ view.bound) :
    ∃ settled, ∀ pass, settled ≤ pass →
      (view.advance members)^[pass] (view.known current) =
        (view.advance members)^[settled] (view.known current) :=
  iterate_eventually_const view.advance_mono (view.known_ascends hmembers huntouched)
    view.bound_finite (view.iterate_bound hmembers hbound)

end View

end Problem

end CppContextEngine.Analysis
