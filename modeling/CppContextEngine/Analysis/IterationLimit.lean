import Mathlib.Tactic.DeriveEncodable
import CppContextEngine.Analysis.Completeness
import CppContextEngine.Analysis.Convergence

/-!
# What the iteration limit decides

A large enough limit no longer changes which facts a summary has, and only two
reasons depend on it.  It may change certainties for ever, and then every
member of the component says so.
-/

namespace CppContextEngine.Analysis

open CppContextEngine.Foundation CppContextEngine.Models

variable [Fingerprint] {p : Problem}

namespace Problem

def finalEffectKeys (p : Problem) : Set (String × EffectKey) :=
  {entry | ∃ effect ∈ p.finalEnvironment.effects entry.1, effectKey effect = entry.2}

def finalOriginKeys (p : Problem) : Set (String × OriginKey) :=
  {entry | ∃ origin ∈ p.finalEnvironment.origins entry.1, originKey origin = entry.2}

/-- From some limit on, every component converges and nothing depends on the limit. -/
def Converges (p : Problem) : Prop :=
  ∃ bound, ∀ n, bound ≤ n →
    (p.withIterations n).finalEnvironment = (p.withIterations bound).finalEnvironment ∧
      ∀ before component after, p.components = before ++ component :: after →
        ¬ (p.withIterations n).IterationCapHit (p.members component)
          ((p.withIterations n).environmentAfter before)

theorem known_effectView (hids : p.DistinctIds) (q : Problem) :
    (effectView hids).known q.finalEnvironment = q.finalEffectKeys := by
  ext ⟨id, key⟩
  constructor
  · rintro ⟨facts, hfacts, effect, heffect, hkey⟩
    exact ⟨effect, mem_effects.mpr ⟨facts, hfacts, heffect⟩, hkey⟩
  · rintro ⟨effect, heffect, hkey⟩
    obtain ⟨facts, hfacts, hmem⟩ := mem_effects.mp heffect
    exact ⟨facts, hfacts, effect, hmem, hkey⟩

theorem known_originView (hids : p.DistinctIds) (q : Problem) :
    (originView hids).known q.finalEnvironment = q.finalOriginKeys := by
  ext ⟨id, key⟩
  constructor
  · rintro ⟨facts, hfacts, origin, horigin, hkey⟩
    exact ⟨origin, mem_origins.mpr ⟨facts, hfacts, horigin⟩, hkey⟩
  · rintro ⟨origin, horigin, hkey⟩
    obtain ⟨facts, hfacts, hmem⟩ := mem_origins.mp horigin
    exact ⟨facts, hfacts, origin, hmem, hkey⟩

theorem converges_of_consistent (hids : p.DistinctIds) (hconsistent : p.Consistent)
    (hsize : p.NoOversized) (hcap : ∀ n, (p.withIterations n).NeverExceeds) : p.Converges := by
  obtain ⟨final, bound, h⟩ :=
    exists_converged hids hconsistent hsize hcap p.components [] (List.append_nil _).symm
  refine ⟨bound, fun n hn => ⟨?_, fun before component after => h.uncapped n hn _ _ _⟩⟩
  exact (h.environment n hn).trans (h.environment bound le_rfl).symm

/-! ## Reasons -/

/-- The reasons of a member: its own ones, an incomplete callee and the iteration limit. -/
theorem final_reasons (hcap : p.NeverExceeds) {before after : List (List String)}
    {component : List String} (hsplit : p.components = before ++ component :: after)
    {caller : FunctionSummary} (hcaller : caller ∈ p.members component) :
    ∃ facts, p.finalEnvironment[caller.id]? = some facts ∧ ∀ text,
      text ≠ IncompleteReason.calleeSummaryIncomplete.text → (text ∈ facts.reasons.texts ↔
        p.StaticReason caller text ∨
          (p.IterationCapHit (p.members component) (p.environmentAfter before) ∧
            text = IncompleteReason.sccIterationCapExceeded.text)) := by
  obtain ⟨pass, facts, hfacts, houtcome⟩ := final_outcome hsplit hcaller
  have hfits := hcap before component after hsplit pass houtcome.last pass le_rfl caller hcaller
  refine ⟨facts, hfacts, fun text htext => ?_⟩
  rw [houtcome.reasons, mem_transfer_reasons]
  simp only [htext, false_and, Nat.not_lt.mpr hfits, or_false]

omit [Fingerprint]

deriving instance Encodable for IdValue

/-- The identifier values of the three facts that travel between `f` and `g`, in order. -/
def travelling : List (List IdValue) :=
  let values (caller site symbol : String) : List IdValue :=
    [.text caller, .text "write", .text "global", .index none, .texts [], .text site,
      .text symbol, .optional (some "access")]
  [values "f" "u" "F", values "f" "s" "G", values "g" "t" "F"]

/-- Identifiers in the order of `travelling`, then all others. -/
def rank (values : List IdValue) : Nat :=
  if values ∈ travelling then travelling.idxOf values
  else travelling.length + Encodable.encode values

theorem rank_injective : Function.Injective rank := by
  intro values values' h
  unfold rank at h
  split at h <;> split at h
  · rename_i hmem _
    exact (List.idxOf_inj hmem).mp h
  · have := List.idxOf_lt_length_of_mem ‹values ∈ travelling›
    omega
  · have := List.idxOf_lt_length_of_mem ‹values' ∈ travelling›
    omega
  · exact Encodable.encode_injective (by omega)

@[reducible] def rankedFingerprint : Fingerprint where
  digest values := String.ofList (List.replicate (rank values) 'a')

theorem ranked_injective : Function.Injective rankedFingerprint.digest := by
  intro values values' h
  have hlists := String.ofList_injective h
  exact rank_injective (List.replicate_left_inj.mp hlists)

/-- `f` writes a global and calls itself and `g`, which calls `f`. -/
def mutualCalls (own : CallTargetCertainty) : Problem where
  summaries := [callerBody, calleeBody]
  localEffects := [rawWrite "local" "f" "counter"]
  localOrigins := []
  bindings := []
  resultBindings := []
  callsites := [rawCallsite "u" "F", rawCallsite "s" "F", rawCallsite "t" "G"]
  targets := [rawTarget "target_u" "u" "F" own, rawTarget "target_s" "s" "G" .certain,
    rawTarget "target_t" "t" "F" .certain]
  limits := .standard

theorem mutualCalls_components (own : CallTargetCertainty) :
    (mutualCalls own).components = [["f", "g"]] := by
  cases own <;> decide +kernel

/-- The environment before pass `pass` over `f` and `g`. -/
def mutualPass (own : CallTargetCertainty) (pass : Nat) : Environment :=
  @environmentAt rankedFingerprint (mutualCalls own) ((mutualCalls own).members ["f", "g"])
    (mutualCalls own).initialEnvironment pass

theorem mutualPass_spec (own : CallTargetCertainty) : mutualPass own 4 = mutualPass own 2 ∧
    ∀ pass < 4, (∀ caller ∈ (mutualCalls own).members ["f", "g"],
      (@transferDraft rankedFingerprint (mutualCalls own) (mutualPass own pass)
        caller).effects.items.length ≤ 1024) ∧
      (own = .possible → @settled rankedFingerprint (mutualCalls own)
        ((mutualCalls own).members ["f", "g"]) (mutualPass own pass) = false) := by
  cases own <;> decide +kernel

/-- Every pass sees one of the first four environments. -/
theorem mutualPass_recurs (own : CallTargetCertainty) (pass : Nat) :
    ∃ early < 4, mutualPass own pass = mutualPass own early := by
  have hsucc {pass pass' : Nat} (h : mutualPass own pass = mutualPass own pass') :
      mutualPass own (pass + 1) = mutualPass own (pass' + 1) := by
    simp only [mutualPass, environmentAt_succ] at h ⊢
    rw [h]
  induction pass with
  | zero => exact ⟨0, by omega, rfl⟩
  | succ pass ih =>
      obtain ⟨early, hearly, h⟩ := ih
      rcases Nat.lt_or_ge early 3 with hlt | hge
      · exact ⟨early + 1, by omega, hsucc h⟩
      · obtain rfl : early = 3 := by omega
        exact ⟨2, by omega, (hsucc h).trans (mutualPass_spec own).1⟩

theorem mutualCalls_split {own : CallTargetCertainty} {before after : List (List String)}
    {component : List String} (h : (mutualCalls own).components = before ++ component :: after) :
    before = [] ∧ component = ["f", "g"] ∧ after = [] := by
  rw [mutualCalls_components, eq_comm, List.append_eq_singleton_iff] at h
  rcases h with ⟨rfl, h⟩ | ⟨-, h⟩
  · obtain ⟨rfl, rfl⟩ := List.cons_eq_cons.mp h
    exact ⟨rfl, rfl, rfl⟩
  · cases h

theorem mutualCalls_noOversized (own : CallTargetCertainty) : (mutualCalls own).NoOversized := by
  intro component hcomponent
  rw [mutualCalls_components, List.mem_singleton] at hcomponent
  subst hcomponent
  cases own <;> decide

theorem mutualCalls_neverExceeds (own : CallTargetCertainty) (n : Nat) :
    @NeverExceeds rankedFingerprint ((mutualCalls own).withIterations n) := by
  intro before component after hsplit last _ pass _ caller hcaller
  obtain ⟨rfl, rfl, rfl⟩ := mutualCalls_split hsplit
  obtain ⟨early, hearly, h⟩ := mutualPass_recurs own pass
  have hfits := (((mutualPass_spec own).2 early hearly).1 caller hcaller)
  rw [← h] at hfits
  exact hfits

theorem mutualCalls_distinctIds (own : CallTargetCertainty) :
    @DistinctIds rankedFingerprint (mutualCalls own) := by
  refine @DistinctIds.mk rankedFingerprint _ ranked_injective (fun id => ?_) (fun id => ?_) ?_ ?_
  · rw [localEffectsOf, ((List.perm_insertionSort _ _).map _).nodup_iff]
    exact List.Nodup.sublist (List.filter_sublist.map SummaryEffect.id) (List.nodup_singleton _)
  · simp [localOriginsOf, mutualCalls]
  · intro effect heffect values h
    obtain rfl := List.mem_singleton.mp heffect
    have hchars := congrArg String.toList h
    simp [@makeId.eq_def rankedFingerprint, rawWrite] at hchars
  · intro origin horigin
    cases horigin

theorem mutualCalls_cycle {own : CallTargetCertainty} {n : Nat} :
    ¬ ((mutualCalls own).withIterations n).Single ((mutualCalls own).members ["f", "g"]) := by
  rintro ⟨caller, hmembers, -⟩
  have hlength : ((mutualCalls own).members ["f", "g"]).length = 1 := congrArg List.length hmembers
  cases own <;> exact absurd hlength (by decide)

/-- The effects of `f` and `g` when every call is certain. -/
def mutualEffects : List (String × SummaryEffect) :=
  ["f", "g"].flatMap fun id =>
    ((mutualPass .certain 2).effects id).map fun effect => (id, effect)

theorem mutualEffects_closed :
    (∀ effect ∈ (mutualCalls .certain).localEffects, (effect.summaryId, effect) ∈ mutualEffects) ∧
    (∀ caller ∈ (mutualCalls .certain).summaries,
      ∀ edge ∈ (mutualCalls .certain).callerEdges caller, ∀ entry ∈ mutualEffects,
      entry.1 = edge.callee.id → ∀ effect ∈ (@propagateEffect rankedFingerprint
        (mutualCalls .certain) caller edge.site edge.target entry.2 edge.bodyAmbiguous).toList,
      (caller.id, effect) ∈ mutualEffects) ∧
    ∀ entry ∈ mutualEffects, ∀ other ∈ mutualEffects, entry.1 = other.1 →
      entry.2.id = other.2.id → entry.2 = other.2 := by
  decide +kernel

theorem mutualEffects_complete {id : String} {effect : SummaryEffect}
    (h : @DerivableEffect rankedFingerprint (mutualCalls .certain) id effect) :
    (id, effect) ∈ mutualEffects := by
  obtain ⟨hlocal, hcall, -⟩ := mutualEffects_closed
  induction h with
  | own h =>
      rw [← summaryId_of_localEffectsOf h]
      exact hlocal _ (mem_localEffects_of h)
  | call hcaller hedge _ hpropagate ih =>
      exact hcall _ (summaryById_mem _ hcaller) _ hedge _ ih rfl _ (by simp [hpropagate])

theorem mutualCalls_no_origin {id : String} {origin : SummaryReturnOrigin} :
    ¬ @DerivableOrigin rankedFingerprint (mutualCalls .certain) id origin := by
  intro h
  induction h with
  | own h => simp [localOriginsOf, mutualCalls] at h
  | call _ _ _ _ ih => exact ih

theorem mutualCalls_consistent : @Consistent rankedFingerprint (mutualCalls .certain) :=
  @Consistent.mk rankedFingerprint _
    (fun _ _ _ h h' hid => mutualEffects_closed.2.2 _ (mutualEffects_complete h) _
      (mutualEffects_complete h') rfl hid)
    (fun _ _ _ h => absurd h mutualCalls_no_origin)

end Problem

end CppContextEngine.Analysis
