import CppContextEngine.Analysis.Views

/-!
# Convergence of recursive components

What a component knows stops changing after finitely many rounds, whatever the
order of the identifiers.  The certainty that an identifier keeps need not: two
derivations of one identifier can take turns.  Where they agree, a large enough
iteration limit is never reached and never matters.
-/

namespace CppContextEngine.Analysis

open CppContextEngine.Foundation CppContextEngine.Models

variable [Fingerprint]

namespace Problem

/-- The same input under the iteration limit `n` (one is the least that there is). -/
def withIterations (p : Problem) (n : Nat) : Problem :=
  { p with
    limits := { p.limits with
      maxSccIterations := max n 1
      positive := ⟨by omega, p.limits.positive.2⟩ } }

/-- No component exceeds the size limit. -/
def NoOversized (p : Problem) : Prop :=
  ∀ component ∈ p.components, component.length ≤ p.limits.maxSccSize

/-- No pass of the run cuts the effects of a summary. -/
def NeverExceeds (p : Problem) : Prop :=
  ∀ before component after, p.components = before ++ component :: after →
    ∀ last, p.LastPass (p.members component) (p.environmentAfter before) last →
    ∀ pass ≤ last, ∀ caller ∈ p.members component,
      p.Fits (p.environmentAt (p.members component) (p.environmentAfter before) pass) caller

variable {p : Problem}

/-! ## One component -/

section Component

variable {members : List FunctionSummary} {current : Environment}

omit [Fingerprint] in
theorem members_subset {component : List String} {caller : FunctionSummary}
    (h : caller ∈ p.members component) : caller ∈ p.summaries :=
  p.summaryById_mem ((p.mem_members).mp h).2

omit [Fingerprint] in
theorem initialEnvironment_get (id : String) : p.initialEnvironment[id]? =
    (p.summaryById id).map fun summary =>
      ⟨p.localEffectsOf summary.id, p.localOriginsOf summary.id, Reasons.ofLocal summary⟩ := by
  simp [initialEnvironment, Table.getElem?_foldl_insert, summaryById]

/-- A component is solved from the local facts of its members. -/
theorem untouched_before {before after : List (List String)} {component : List String}
    (hsplit : p.components = before ++ component :: after) :
    View.Untouched p (p.members component) (p.environmentAfter before) := by
  intro caller hcaller
  obtain ⟨hid, hsummary⟩ := (p.mem_members).mp hcaller
  have hframe : (p.environmentAfter ([] ++ before))[caller.id]? =
      (p.environmentAfter [])[caller.id]? := by
    refine p.environmentAfter_frame (fun c hc => ?_) fun c hc hmem => ?_
    · exact hsplit ▸ List.mem_append_left _ hc
    · exact (p.split_disjoint hsplit).1 c hc hmem hid
  rw [List.nil_append] at hframe
  rw [hframe]
  exact (initialEnvironment_get caller.id).trans (by rw [hsummary]; rfl)

omit [Fingerprint] in
theorem oversizedMembers_of_noOversized (h : p.NoOversized) {before after : List (List String)}
    {component : List String} (hsplit : p.components = before ++ component :: after) :
    p.oversizedMembers (p.members component) = false := by
  refine List.any_eq_false.mpr fun caller hcaller hoversized => ?_
  have hsize := (isOversized_iff hsplit ((p.mem_members).mp hcaller).1).mp hoversized
  have hmem : component ∈ p.components := hsplit ▸ List.mem_append_right _ List.mem_cons_self
  exact absurd (h component hmem) (Nat.not_le.mpr hsize)

variable (current) in
/-- The last pass either confirmed the one before it or was the last one allowed. -/
theorem lastPass_cases (hsingle : ¬ p.Single members) (hsize : p.oversizedMembers members = false) :
    ∃ pass, p.LastPass members current pass ∧
      ((p.settled members (p.environmentAt members current pass) = true ∧
          ¬ p.IterationCapHit members current ∧
          (p.solveMembers members current).1 = p.environmentAt members current (pass + 1)) ∨
        (pass + 1 = p.limits.maxSccIterations ∧ p.IterationCapHit members current ∧
          (∀ earlier ≤ pass,
            p.settled members (p.environmentAt members current earlier) = false) ∧
          (p.solveMembers members current).1 =
            members.foldl noteIterationCap (p.environmentAt members current (pass + 1)))) := by
  obtain ⟨pass, hcount, henv, hconverged⟩ := iterate_passes (p := p) members current
  refine ⟨pass, .inr ⟨hsingle, hcount⟩, ?_⟩
  have hlimit : p.iterationLimit members = p.limits.maxSccIterations := by
    simp [iterationLimit, hsize]
  rw [p.solveMembers_cycle hsingle]
  simp only [solveCycle, hsize, Bool.or_false]
  cases hflag : (p.iterate members (p.iterationLimit members) 0 current).2.2 with
  | true =>
      refine .inl ⟨hconverged hflag, ?_, henv⟩
      rintro (⟨-, h, -⟩ | ⟨-, -, h⟩)
      · exact hsingle h
      · rw [hflag] at h
        cases h
  | false =>
      obtain ⟨done, -, -, hcount', -, hcapped⟩ :=
        p.iterate_spec members (p.iterationLimit members) 0 current
      obtain ⟨hdone, hunsettled⟩ := hcapped hflag
      refine .inr ⟨by omega, .inr ⟨hsingle, hsize, hflag⟩, fun earlier hearlier => ?_, ?_⟩
      · exact hunsettled earlier (by omega)
      · rw [← henv]
        rfl

end Component

/-! ## What is known after a component -/

namespace View

variable {κ : Type} (view : p.View κ)

/-- The view does not look at the reasons. -/
def IgnoresReasons : Prop :=
  ∀ facts reasons, view.keys { facts with reasons := reasons } = view.keys facts

variable {view} {members : List FunctionSummary} {current : Environment}

theorem known_noteIterationCap (h : view.IgnoresReasons) (caller : FunctionSummary)
    (current : Environment) : view.known (noteIterationCap current caller) = view.known current := by
  ext ⟨id, key⟩
  unfold noteIterationCap
  split
  · rfl
  · rename_i facts hfacts
    have hinsert : (current.insert caller.id { facts with
        reasons := facts.reasons.note .sccIterationCapExceeded })[id]? =
        if caller.id = id then some { facts with
          reasons := facts.reasons.note .sccIterationCapExceeded } else current[id]? :=
      Table.getElem?_insert _ _ _ _
    simp only [known, Set.mem_ofPred_eq, hinsert]
    split
    · subst_vars
      simp only [hfacts, Option.some.injEq, exists_eq_left']
      rw [h facts]
    · rfl

theorem known_foldl_noteIterationCap (h : view.IgnoresReasons) (members : List FunctionSummary) :
    ∀ current, view.known (members.foldl noteIterationCap current) = view.known current := by
  induction members with
  | nil => exact fun _ => rfl
  | cons caller members ih =>
      intro current
      rw [List.foldl_cons, ih, known_noteIterationCap h]

theorem known_insert_transfer (h : view.IgnoresReasons) (caller : FunctionSummary)
    (reasons : Reasons) : view.known (current.insert caller.id
      { p.transfer current caller with reasons := reasons }) =
      view.known (p.round [caller] current) := by
  ext ⟨id, key⟩
  simp only [known, Set.mem_ofPred_eq, round, List.foldl_cons, List.foldl_nil,
    Table.getElem?_insert]
  split
  · simp only [Option.some.injEq, exists_eq_left']
    rw [h (p.transfer current caller)]
  · rfl

variable (view) in
/-- Solving a component makes known what its last pass does. -/
theorem known_solveMembers (h : view.IgnoresReasons)
    (hnodup : (members.map FunctionSummary.id).Nodup)
    (hsize : p.oversizedMembers members = false)
    (hfits : ∀ last, p.LastPass members current last → ∀ pass ≤ last, ∀ caller ∈ members,
      p.Fits (p.environmentAt members current pass) caller) {pass : Nat}
    (hlast : p.LastPass members current pass) :
    view.known (p.solveMembers members current).1 =
      (view.advance members)^[pass + 1] (view.known current) := by
  have hfits' : ∀ earlier < pass + 1, ∀ caller ∈ members,
      p.Fits (p.environmentAt members current earlier) caller := fun earlier hearlier =>
    hfits pass hlast earlier (by omega)
  rw [← view.known_environmentAt hnodup hfits']
  by_cases hsingle : p.Single members
  · obtain ⟨caller, rfl, hself⟩ := hsingle
    obtain rfl : pass = 0 := hlast.elim And.right fun h => absurd ⟨caller, rfl, hself⟩ h.1
    rw [p.solveMembers_single hself]
    exact known_insert_transfer h caller _
  · obtain ⟨pass', hlast', hcases⟩ := lastPass_cases current hsingle hsize
    obtain rfl : pass = pass' := by
      rcases hlast with ⟨h, -⟩ | ⟨-, hcount⟩
      · exact absurd h hsingle
      · rcases hlast' with ⟨h, -⟩ | ⟨-, hcount'⟩
        · exact absurd h hsingle
        · omega
    rcases hcases with ⟨-, -, henv⟩ | ⟨-, -, -, henv⟩
    · rw [henv]
    · rw [henv, known_foldl_noteIterationCap h]

/-- Only summaries of the input have facts, and their keys lie in the view's range. -/
theorem known_initial : view.known p.initialEnvironment ⊆ view.bound := by
  rintro ⟨id, key⟩ ⟨facts, hfacts, hkey⟩
  rw [initialEnvironment_get] at hfacts
  obtain ⟨summary, hsummary, rfl⟩ := Option.map_eq_some_iff.mp hfacts
  have hmem := p.summaryById_mem hsummary
  have hid := p.summaryById_id hsummary
  exact ⟨(p.mem_summaryIds).mpr ⟨summary, hmem, hid⟩,
    view.own_range summary hmem (view.initial summary hmem hkey)⟩

end View

theorem exists_lastPass (members : List FunctionSummary) (current : Environment) :
    ∃ pass, p.LastPass members current pass := by
  by_cases hsingle : p.Single members
  · exact ⟨0, .inl ⟨hsingle, rfl⟩⟩
  · obtain ⟨pass, hcount, -⟩ := iterate_passes (p := p) members current
    exact ⟨pass, .inr ⟨hsingle, hcount⟩⟩

/-! ## The iteration limit -/

section Limit

variable (p) (n : Nat)

theorem iterate_withIterations (members : List FunctionSummary) (limit : Nat) :
    ∀ (count : Nat) (current : Environment),
      (p.withIterations n).iterate members limit count current =
        p.iterate members limit count current := by
  induction limit with
  | zero => exact fun _ _ => rfl
  | succ limit ih =>
      intro count current
      simp only [iterate, ih]
      rfl

/-- The limit has no part in a view. -/
def View.withIterations {p : Problem} {κ : Type} (view : p.View κ) (n : Nat) :
    (p.withIterations n).View κ where
  keys := view.keys
  own := view.own
  lift := view.lift
  range := view.range
  initial := view.initial
  transfer := view.transfer
  finite := view.finite
  own_range := view.own_range
  lift_range := view.lift_range

end Limit

/-- The keys that the run with limit `n` ends with are the same for every large `n`. -/
theorem known_settles {κ : Type} (view : p.View κ) (h : view.IgnoresReasons)
    (hsize : p.NoOversized) (hcap : ∀ n, (p.withIterations n).NeverExceeds)
    (before : List (List String)) : ∀ after, p.components = before ++ after →
    ∃ final, final ⊆ view.bound ∧ ∃ bound, ∀ n, bound ≤ n →
      view.known ((p.withIterations n).environmentAfter before) = final := by
  induction before using List.reverseRecOn with
  | nil => exact fun after _ => ⟨_, View.known_initial, 0, fun n _ => rfl⟩
  | append_singleton before component ih =>
      intro after hsplit
      rw [List.append_assoc, List.singleton_append] at hsplit
      obtain ⟨known, hknown, bound, hbefore⟩ := ih _ hsplit
      have hmembers : ∀ caller ∈ p.members component, caller ∈ p.summaries :=
        fun _ => members_subset
      have hnodup := members_nodup hsplit
      have hoversized := oversizedMembers_of_noOversized hsize hsplit
      obtain ⟨settled, hsettled⟩ := view.advance_settles
        ((p.withIterations bound).environmentAfter before) hmembers
        (untouched_before (p := p.withIterations bound) hsplit)
        (by rw [hbefore bound le_rfl]; exact hknown)
      rw [hbefore bound le_rfl] at hsettled
      have hafter (n : Nat) (hn : bound ≤ n) {pass : Nat}
          (hlast : (p.withIterations n).LastPass (p.members component)
            ((p.withIterations n).environmentAfter before) pass) :
          view.known ((p.withIterations n).environmentAfter (before ++ [component])) =
            (view.advance (p.members component))^[pass + 1] known := by
        rw [environmentAfter_append, ← hbefore n hn]
        exact (view.withIterations n).known_solveMembers h hnodup hoversized
          (hcap n before component after hsplit) hlast
      by_cases hsingle : p.Single (p.members component)
      · refine ⟨view.advance (p.members component) known, view.advance_bound hmembers hknown,
          bound, fun n hn => ?_⟩
        exact hafter n hn (.inl ⟨hsingle, rfl⟩)
      · refine ⟨(view.advance (p.members component))^[settled] known,
          view.iterate_bound hmembers hknown settled, max bound settled, fun n hn => ?_⟩
        obtain ⟨pass, hlast, hcases⟩ := lastPass_cases (p := p.withIterations n)
          ((p.withIterations n).environmentAfter before) hsingle hoversized
        rw [hafter n (by omega) hlast]
        rcases hcases with ⟨hconfirmed, -⟩ | ⟨hcount, -⟩
        · have hfits := hcap n before component after hsplit pass hlast
          have hpass := view.known_environmentAt hnodup fun earlier (h : earlier < pass) =>
            hfits earlier (by omega)
          have hnext := view.known_environmentAt hnodup fun earlier (h : earlier < pass + 1) =>
            hfits earlier (by omega)
          have hround : p.environmentAt (p.members component)
              ((p.withIterations n).environmentAfter before) (pass + 1) =
              p.environmentAt (p.members component)
                ((p.withIterations n).environmentAfter before) pass :=
            (environmentAt_succ pass).trans (round_of_settled (p := p) hnodup hconfirmed)
          rw [hround, hpass, hbefore n (by omega)] at hnext
          rcases Nat.le_total settled (pass + 1) with hle | hle
          · exact hsettled (pass + 1) hle
          · rw [← hnext]
            exact (iterate_const_of_fixed hnext.symm settled (by omega)).symm
        · have : (p.withIterations n).limits.maxSccIterations = max n 1 := rfl
          exact hsettled (pass + 1) (by omega)

/-! ## Derivations -/

/-- `effect` is a local effect of the summary `id` or comes from its calls. -/
inductive DerivableEffect (p : Problem) : String → SummaryEffect → Prop where
  | own {id : String} {effect : SummaryEffect} :
      effect ∈ p.localEffectsOf id → DerivableEffect p id effect
  | call {caller : FunctionSummary} {edge : CallEdge} {source effect : SummaryEffect} :
      p.summaryById caller.id = some caller → edge ∈ p.callerEdges caller →
      DerivableEffect p edge.callee.id source →
      p.propagateEffect caller edge.site edge.target source edge.bodyAmbiguous = some effect →
      DerivableEffect p caller.id effect

inductive DerivableOrigin (p : Problem) : String → SummaryReturnOrigin → Prop where
  | own {id : String} {origin : SummaryReturnOrigin} :
      origin ∈ p.localOriginsOf id → DerivableOrigin p id origin
  | call {caller : FunctionSummary} {edge : CallEdge} {source : SummaryReturnOrigin} :
      p.summaryById caller.id = some caller → edge ∈ p.callerEdges caller →
      p.Marked caller edge → DerivableOrigin p edge.callee.id source →
      DerivableOrigin p caller.id
        (p.propagateOrigin caller edge.site edge.target source edge.bodyAmbiguous)

/-- Two derivations of one identifier give the same fact. -/
structure Consistent (p : Problem) : Prop where
  effects : ∀ id effect effect', p.DerivableEffect id effect → p.DerivableEffect id effect' →
    effect.id = effect'.id → effect = effect'
  origins : ∀ id origin origin', p.DerivableOrigin id origin → p.DerivableOrigin id origin' →
    origin.id = origin'.id → origin = origin'

def Derivable (p : Problem) (id : String) (facts : Facts) : Prop :=
  (∀ effect ∈ facts.effects, p.DerivableEffect id effect) ∧
    ∀ origin ∈ facts.origins, p.DerivableOrigin id origin

section Derivations

variable {members : List FunctionSummary} {current current' : Environment}

theorem derivable_transfer (h : Holds p.Derivable current) {caller : FunctionSummary}
    (hcaller : p.summaryById caller.id = some caller) :
    p.Derivable caller.id (p.transfer current caller) := by
  constructor
  · intro effect heffect
    rcases List.mem_append.mp (p.mem_transfer_effects heffect) with hlocal | hedges
    · exact .own hlocal
    · obtain ⟨edge, hedge, hmem⟩ := List.mem_flatMap.mp hedges
      obtain ⟨source, hsource, hpropagate⟩ := List.mem_filterMap.mp hmem
      obtain ⟨facts, hfacts, hsource⟩ := mem_effects.mp hsource
      exact .call hcaller hedge ((h _ _ hfacts).1 source hsource) hpropagate
  · intro origin horigin
    rcases p.mem_transfer_origins horigin with hlocal | ⟨edge, hedge, hmem, hmarked⟩
    · exact .own hlocal
    · obtain ⟨source, hsource, rfl⟩ := List.mem_map.mp hmem
      obtain ⟨facts, hfacts, hsource⟩ := mem_origins.mp hsource
      exact .call hcaller hedge hmarked ((h _ _ hfacts).2 source hsource)

theorem derivable_invariant : p.Invariant p.Derivable where
  initial _ _ := ⟨fun _ => .own, fun _ => .own⟩
  transfer _ h _ hcaller := derivable_transfer h hcaller
  reasons _ _ _ h := h

omit [Fingerprint] in
/-- Keyed tables whose values have the same keys are equal where a key has one value. -/
theorem table_eq_of_keys {β κ : Type} {id : β → String} (key : β → κ) {t t' : Table β}
    (hkeyed : t.Keyed id) (hkeyed' : t'.Keyed id)
    (hid : ∀ a b, key a = key b → id a = id b)
    (hunique : ∀ a ∈ t.items, ∀ b ∈ t'.items, id a = id b → a = b)
    (hkeys : ∀ k, (∃ a ∈ t.items, key a = k) ↔ ∃ b ∈ t'.items, key b = k) : t = t' := by
  refine Table.ext_getElem? fun k => Option.ext fun a => ?_
  constructor
  · intro ha
    obtain rfl := hkeyed k a ha
    have hmem := (hkeyed.mem_items).mpr ha
    obtain ⟨b, hb, hkey⟩ := (hkeys (key a)).mp ⟨a, hmem, rfl⟩
    rw [hunique a hmem b hb (hid b a hkey).symm]
    exact (hkeyed'.mem_items).mp hb
  · intro ha
    obtain rfl := hkeyed' k a ha
    have hmem := (hkeyed'.mem_items).mpr ha
    obtain ⟨b, hb, hkey⟩ := (hkeys (key a)).mpr ⟨a, hmem, rfl⟩
    rw [← hunique b hb a hmem (hid b a hkey)]
    exact (hkeyed.mem_items).mp hb

/-- Where identifiers have one derivation each, a transfer depends on what is known only. -/
theorem transfer_eq_of_known (hids : p.DistinctIds) (hconsistent : p.Consistent)
    {caller : FunctionSummary} (hcaller : p.summaryById caller.id = some caller)
    (hfits : p.Fits current caller) (hfits' : p.Fits current' caller)
    (hderivable : Holds p.Derivable current) (hderivable' : Holds p.Derivable current')
    (heffects : (effectView hids).known current = (effectView hids).known current')
    (horigins : (originView hids).known current = (originView hids).known current')
    (hreasons : p.reasonView.known current = p.reasonView.known current') :
    p.transfer current caller = p.transfer current' caller := by
  obtain ⟨heffect, horigin⟩ := derivable_transfer hderivable hcaller
  obtain ⟨heffect', horigin'⟩ := derivable_transfer hderivable' hcaller
  have hwhole {current : Environment} (hfits : p.Fits current caller) :
      (p.transfer current caller).effects = (p.transferDraft current caller).effects.items :=
    List.take_of_length_le hfits
  have htable : (p.transferDraft current caller).effects =
      (p.transferDraft current' caller).effects := by
    refine table_eq_of_keys effectKey (p.transferDraft_effects_keyed current caller)
      (p.transferDraft_effects_keyed current' caller) (fun a b h => congrArg EffectKey.id h) ?_ ?_
    · rw [← hwhole hfits, ← hwhole hfits']
      exact fun a ha b hb => hconsistent.effects _ a b (heffect a ha) (heffect' b hb)
    · rw [← hwhole hfits, ← hwhole hfits']
      exact Set.ext_iff.mp ((effectView hids).keys_transfer_congr hfits hfits' heffects)
  have htable' : (p.transferDraft current caller).origins =
      (p.transferDraft current' caller).origins := by
    refine table_eq_of_keys originKey (transferDraft_origins_keyed hids)
      (transferDraft_origins_keyed hids) (fun a b h => congrArg OriginKey.id h) ?_ ?_
    · exact fun a ha b hb => hconsistent.origins _ a b (horigin a ha) (horigin' b hb)
    · exact Set.ext_iff.mp ((originView hids).keys_transfer_congr hfits hfits' horigins)
  refine Facts.ext ?_ ?_ (Reasons.ext_mem fun text => ?_)
  · rw [hwhole hfits, hwhole hfits', htable]
  · exact congrArg Table.items htable'
  · have hincomplete (id : String) : current.incomplete id = true ↔ current'.incomplete id = true :=
      incomplete_iff.trans ((Set.ext_iff.mp hreasons (id, ())).trans incomplete_iff.symm)
    simp only [mem_transfer_reasons, hincomplete, Nat.not_lt.mpr hfits, Nat.not_lt.mpr hfits',
      false_and, or_false]

/-! ## Settling -/

variable (current) in
/-- Where identifiers have one derivation each, some round changes nothing. -/
theorem exists_settled (hids : p.DistinctIds) (hconsistent : p.Consistent)
    (hmembers : ∀ caller ∈ members, p.summaryById caller.id = some caller)
    (hnodup : (members.map FunctionSummary.id).Nodup)
    (huntouched : View.Untouched p members current)
    (hbound : ∀ {κ : Type} (view : p.View κ), view.known current ⊆ view.bound)
    (hderivable : Holds p.Derivable current)
    (hfits : ∀ pass, ∀ caller ∈ members, p.Fits (p.environmentAt members current pass) caller) :
    ∃ pass, p.settled members (p.environmentAt members current pass) = true := by
  have hstays {κ : Type} (view : p.View κ) : ∃ settled, ∀ pass, settled ≤ pass →
      view.known (p.environmentAt members current pass) =
        view.known (p.environmentAt members current (pass + 1)) := by
    obtain ⟨settled, hsettled⟩ := view.advance_settles current
      (fun caller hcaller => p.summaryById_mem (hmembers caller hcaller)) huntouched (hbound view)
    refine ⟨settled, fun pass hpass => ?_⟩
    rw [view.known_environmentAt hnodup fun earlier _ => hfits earlier,
      view.known_environmentAt hnodup fun earlier _ => hfits earlier, hsettled pass hpass,
      hsettled (pass + 1) (by omega)]
  have hholds (pass : Nat) : Holds p.Derivable (p.environmentAt members current pass) := by
    induction pass with
    | zero => exact hderivable
    | succ pass ih =>
        rw [environmentAt_succ]
        exact derivable_invariant.holds_round hmembers ih
  obtain ⟨effects, heffects⟩ := hstays (effectView hids)
  obtain ⟨origins, horigins⟩ := hstays (originView hids)
  obtain ⟨reasons, hreasons⟩ := hstays p.reasonView
  let pass := max effects (max origins reasons)
  refine ⟨pass + 1, List.all_eq_true.mpr fun caller hcaller => ?_⟩
  rw [decide_eq_true_eq, environmentAt_succ, round_member hnodup hcaller, ← environmentAt_succ]
  rw [transfer_eq_of_known hids hconsistent (hmembers caller hcaller) (hfits pass caller hcaller)
    (hfits (pass + 1) caller hcaller) (hholds pass) (hholds (pass + 1)) (heffects pass (by omega))
    (horigins pass (by omega)) (hreasons pass (by omega))]

theorem environmentAt_const {pass : Nat} (hnodup : (members.map FunctionSummary.id).Nodup)
    (h : p.settled members (p.environmentAt members current pass) = true) {later : Nat}
    (hlater : pass ≤ later) :
    p.environmentAt members current later = p.environmentAt members current pass := by
  refine iterate_const_of_fixed ?_ later hlater
  exact (environmentAt_succ pass).trans (round_of_settled hnodup h)

end Derivations

/-! ## The whole run -/

/-- What a large enough limit makes of the components of `before`. -/
structure Converged (p : Problem) (before : List (List String)) (final : Environment) (bound : Nat) :
    Prop where
  environment : ∀ n, bound ≤ n → (p.withIterations n).environmentAfter before = final
  uncapped : ∀ n, bound ≤ n → ∀ earlier component later,
    before = earlier ++ component :: later →
    ¬ (p.withIterations n).IterationCapHit (p.members component)
      ((p.withIterations n).environmentAfter earlier)
  known : ∀ {κ : Type} (view : p.View κ), view.known final ⊆ view.bound
  derivable : Holds p.Derivable final

section Run

variable {before after : List (List String)} {component : List String} {final : Environment}
  {bound : Nat}

/-- One more component, whose rounds from `final` on end in `round passes`. -/
theorem Converged.append (h : Converged p before final bound)
    (hsplit : p.components = before ++ component :: after) (passes bound' : Nat)
    (hfits : ∀ pass < passes, ∀ caller ∈ p.members component,
      p.Fits (p.environmentAt (p.members component) final pass) caller)
    (hsolve : ∀ n, max bound bound' ≤ n →
      ((p.withIterations n).solveMembers (p.members component) final).1 =
        p.environmentAt (p.members component) final passes ∧
      ¬ (p.withIterations n).IterationCapHit (p.members component) final) :
    Converged p (before ++ [component]) (p.environmentAt (p.members component) final passes)
      (max bound bound') where
  environment n hn := by
    rw [environmentAfter_append, h.environment n (by omega)]
    exact (hsolve n hn).1
  uncapped n hn earlier other later hsplit' := by
    rcases List.eq_nil_or_concat later with rfl | ⟨later, last, rfl⟩
    · obtain ⟨rfl, hother⟩ := List.append_inj' hsplit' rfl
      obtain rfl := List.singleton_injective hother
      rw [h.environment n (by omega)]
      exact (hsolve n hn).2
    · rw [List.concat_eq_append, ← List.cons_append, ← List.append_assoc] at hsplit'
      exact h.uncapped n (by omega) earlier other later (List.append_inj' hsplit' rfl).1
  known view := by
    rw [view.known_environmentAt (members_nodup hsplit) hfits]
    exact view.iterate_bound (fun _ => members_subset) (h.known view) passes
  derivable := by
    clear hsolve hfits
    induction passes with
    | zero => exact h.derivable
    | succ pass ih =>
        rw [environmentAt_succ]
        exact derivable_invariant.holds_round
          (fun caller hcaller => ((p.mem_members).mp hcaller).2) ih

theorem Converged.append_single (h : Converged p before final bound)
    (hsplit : p.components = before ++ component :: after)
    (hsingle : p.Single (p.members component))
    (hfits : ∀ caller ∈ p.members component, p.Fits final caller) :
    ∃ final bound, Converged p (before ++ [component]) final bound := by
  obtain ⟨caller, hcaller, hself⟩ := id hsingle
  refine ⟨_, _, h.append hsplit 1 2 (fun pass hpass => ?_)
    fun n hn => ?_⟩
  · obtain rfl : pass = 0 := by omega
    exact hfits
  have hmax : (p.withIterations n).limits.maxSccIterations ≠ 1 := by
    have : (p.withIterations n).limits.maxSccIterations = max n 1 := rfl
    omega
  constructor
  · rw [hcaller, solveMembers_single (p.withIterations n) hself]
    simp only [solveSingle, hmax, and_false, Reasons.noteIf, ↓reduceIte]
    rfl
  · rintro (⟨hone, -⟩ | ⟨hcycle, -⟩)
    · exact hmax hone
    · exact hcycle hsingle

theorem Converged.append_cycle (h : Converged p before final bound)
    (hsplit : p.components = before ++ component :: after) (hsize : p.NoOversized)
    (hsingle : ¬ p.Single (p.members component)) {pass : Nat}
    (hsettled : p.settled (p.members component)
      (p.environmentAt (p.members component) final pass) = true)
    (hfits : ∀ earlier < pass, ∀ caller ∈ p.members component,
      p.Fits (p.environmentAt (p.members component) final earlier) caller) :
    ∃ final bound, Converged p (before ++ [component]) final bound := by
  have hnodup := members_nodup hsplit
  refine ⟨_, _, h.append hsplit pass (pass + 1) hfits fun n hn => ?_⟩
  obtain ⟨last, -, hcases⟩ := lastPass_cases (p := p.withIterations n) final hsingle
    (oversizedMembers_of_noOversized hsize hsplit)
  rcases hcases with ⟨hconfirmed, huncapped, henv⟩ | ⟨hcount, -, hunsettled, -⟩
  · refine ⟨henv.trans ?_, huncapped⟩
    have hlast {later : Nat} (hlater : last ≤ later) :
        p.environmentAt (p.members component) final later =
          p.environmentAt (p.members component) final last :=
      environmentAt_const hnodup hconfirmed hlater
    -- Both passes confirm the environment that all later ones have.
    calc p.environmentAt (p.members component) final (last + 1)
        = p.environmentAt (p.members component) final (max pass (last + 1)) := by
          rw [hlast (by omega : last ≤ last + 1), hlast (by omega : last ≤ max pass (last + 1))]
      _ = p.environmentAt (p.members component) final pass :=
          environmentAt_const hnodup hsettled (by omega)
  · have hlimit : (p.withIterations n).limits.maxSccIterations = max n 1 := rfl
    have hpass : p.settled (p.members component)
        (p.environmentAt (p.members component) final pass) = false := hunsettled pass (by omega)
    rw [hsettled] at hpass
    cases hpass

/-- Where identifiers have one derivation each, every component converges. -/
theorem exists_converged (hids : p.DistinctIds) (hconsistent : p.Consistent)
    (hsize : p.NoOversized) (hcap : ∀ n, (p.withIterations n).NeverExceeds)
    (before : List (List String)) : ∀ after, p.components = before ++ after →
    ∃ final bound, Converged p before final bound := by
  induction before using List.reverseRecOn with
  | nil =>
      refine fun after _ => ⟨_, 0, fun n _ => rfl, ?_, fun view => View.known_initial,
        derivable_invariant.holds_initial⟩
      intro n _ earlier component later h
      simp at h
  | append_singleton before component ih =>
      intro after hsplit
      rw [List.append_assoc, List.singleton_append] at hsplit
      obtain ⟨final, bound, h⟩ := ih _ hsplit
      have hfits (n : Nat) (hn : bound ≤ n) {last : Nat}
          (hlast : (p.withIterations n).LastPass (p.members component) final last) :
          ∀ pass ≤ last, ∀ caller ∈ p.members component,
            p.Fits (p.environmentAt (p.members component) final pass) caller := by
        rw [← h.environment n hn] at hlast ⊢
        exact hcap n before component after hsplit last hlast
      by_cases hsingle : p.Single (p.members component)
      · exact h.append_single hsplit hsingle (hfits bound le_rfl (.inl ⟨hsingle, rfl⟩) 0 le_rfl)
      have hpasses (n : Nat) := lastPass_cases (p := p.withIterations n) final hsingle
        (oversizedMembers_of_noOversized hsize hsplit)
      by_cases hsettles : ∃ n, bound ≤ n ∧ ∃ pass,
          (p.withIterations n).LastPass (p.members component) final pass ∧
          p.settled (p.members component)
            (p.environmentAt (p.members component) final pass) = true
      · obtain ⟨n, hn, pass, hlast, hsettled⟩ := hsettles
        exact h.append_cycle hsplit hsize hsingle hsettled fun earlier hearlier =>
          hfits n hn hlast earlier (by omega)
      · -- Then every limit is reached, so all passes are without cuts, and some pass settles.
        have hreached (n : Nat) (hn : bound ≤ n) : ∃ last,
            (p.withIterations n).LastPass (p.members component) final last ∧ last + 1 = max n 1 ∧
            ∀ earlier ≤ last, p.settled (p.members component)
              (p.environmentAt (p.members component) final earlier) = false := by
          obtain ⟨last, hlast, ⟨hconfirmed, -⟩ | ⟨hcount, -, hunsettled, -⟩⟩ := hpasses n
          · exact absurd ⟨n, hn, last, hlast, hconfirmed⟩ hsettles
          · exact ⟨last, hlast, hcount, hunsettled⟩
        obtain ⟨pass, hpass⟩ := exists_settled final hids hconsistent
          (fun caller hcaller => ((p.mem_members).mp hcaller).2) (members_nodup hsplit)
          (h.environment bound le_rfl ▸ untouched_before (p := p.withIterations bound) hsplit)
          h.known h.derivable fun pass => by
            obtain ⟨last, hlast, hcount, -⟩ := hreached (max bound (pass + 1)) (by omega)
            exact hfits _ (by omega) hlast pass (by omega)
        obtain ⟨last, -, hcount, hunsettled⟩ := hreached (max bound (pass + 1)) (by omega)
        rw [hunsettled pass (by omega)] at hpass
        cases hpass

end Run

end Problem

end CppContextEngine.Analysis
