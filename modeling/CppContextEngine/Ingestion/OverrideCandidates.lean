import CppContextEngine.Foundation.FirstPerKey
import CppContextEngine.Foundation.Table
import CppContextEngine.Foundation.Worklist
import CppContextEngine.Ingestion.Records
import CppContextEngine.Models.Calls

/-!
# Override candidates of a batch

A virtual call can reach every method that overrides its static target, directly
or through others, in the same build.  The client adds these as possible
targets to the batch.
-/

namespace CppContextEngine.Ingestion

open CppContextEngine.Foundation CppContextEngine.Models

section Candidates

variable [NativeLibrary]

/-- `_hash_text` -/
def hashText (values : List String) : String :=
  NativeLibrary.hexdigest (values.flatMap fun value => utf8 value ++ [0])

def overrideDerivation : Identifier := ⟨"indexed_override_candidate", by decide +kernel⟩

def overrideReason : Identifier :=
  ⟨"target overrides the statically selected virtual method in this build; " ++
    "the value is deterministic ranking evidence, not a probability", by decide +kernel⟩

/-- The identity of a candidate, behind its prefix. -/
def candidateHash (site : CallSite) (target : Identifier) : String :=
  hashText [site.buildVariant, site.buildConfigurationId, site.translationUnitId, site.id, target,
    StrEnum.value CallTargetCertainty.possible, overrideDerivation]

omit [NativeLibrary] in
theorem callTargetPrefix_named : isBlank "call_target_" = false := by decide +kernel

/-- The target that is added to `site`. -/
def candidate (site : CallSite) (target : Identifier) : CallTarget where
  id := ⟨"call_target_" ++ String.ofList ((candidateHash site target).toList.take 32),
    not_blank_append_left _ callTargetPrefix_named⟩
  callsiteId := site.id
  targetSymbolId := target
  certainty := .possible
  confidence := 1 / 2
  confidenceReason := overrideReason
  derivation := overrideDerivation
  evidenceSpan := site.expansionSpan
  translationUnitId := site.translationUnitId
  buildConfigurationId := site.buildConfigurationId
  buildVariant := site.buildVariant
  confidenceRange := by decide +kernel

/-- `sorted(direct_overrides.get((build_variant, target_id), ()))` -/
def directOverrides (edges : List GraphEdge) (buildVariant : String) (target : Identifier) :
    List Identifier :=
  ((edges.filter fun edge => edge.relation = .overrides ∧ edge.buildVariant = buildVariant ∧
    edge.targetId = target).map GraphEdge.sourceId).dedup.mergeSort
      fun first second => first.val ≤ second.val

abbrev TargetKey := Identifier × Identifier

def targetKey (target : CallTarget) : TargetKey := (target.callsiteId, target.targetSymbolId)

/-- `if key in result: continue` and the assignment behind it. -/
def addCandidate (site : CallSite) (result : List (TargetKey × CallTarget)) (target : Identifier) :
    List (TargetKey × CallTarget) :=
  insertNew Prod.fst result ((site.id, target), candidate site target)

/-- The loop over one callsite; the targets are added in the order in which they are visited. -/
def addSite (fuel : Nat) (edges : List GraphEdge) (result : List (TargetKey × CallTarget))
    (site : CallSite) : Option (List (TargetKey × CallTarget)) :=
  match site.dispatchKind, site.staticTargetSymbolId with
  | .virtual, some base => do
      let overriders := directOverrides edges site.buildVariant
      let visited ← traverse overriders fuel (overriders base) []
      return visited.foldl (addCandidate site) result
  | _, _ => some result

/-- `key=lambda item: (item.callsite_id, item.target_symbol_id, item.id)` -/
def targetOrder (first second : CallTarget) : Bool :=
  [first.callsiteId.val, first.targetSymbolId.val, first.id.val] ≤
    [second.callsiteId.val, second.targetSymbolId.val, second.id.val]

/-- `_add_indexed_override_candidates`, with so many turns of its inner loop at most. -/
def addIndexedOverrideCandidates (fuel : Nat) (callsites : List CallSite)
    (targets : List CallTarget) (edges : List GraphEdge) : Option (List CallTarget) := do
  let result ← callsites.foldlM (addSite fuel edges)
    (targets.foldl (fun result target => upsert result (targetKey target) target) [])
  return (result.map Prod.snd).mergeSort targetOrder

end Candidates

/-! ## What is added -/

section Spec

variable {edges : List GraphEdge} {variant : String}

/-- `source` overrides `target` in a build. -/
def Overrides (edges : List GraphEdge) (variant : String) (target source : Identifier) : Prop :=
  ∃ edge ∈ edges, edge.relation = .overrides ∧ edge.buildVariant = variant ∧
    edge.targetId = target ∧ edge.sourceId = source

theorem mem_directOverrides {target source : Identifier} :
    source ∈ directOverrides edges variant target ↔ Overrides edges variant target source := by
  unfold directOverrides Overrides
  rw [List.mem_mergeSort, List.mem_dedup, List.mem_map]
  simp only [List.mem_filter, decide_eq_true_eq, and_assoc]

/-- Everything that overrides `base` in one or more steps. -/
theorem leads_directOverrides {base target : Identifier} :
    Leads (directOverrides edges variant) (directOverrides edges variant base) target ↔
      Relation.TransGen (Overrides edges variant) base target := by
  have hstep : (fun a b => b ∈ directOverrides edges variant a) = Overrides edges variant := by
    funext a b
    exact propext mem_directOverrides
  unfold Leads
  rw [hstep, Relation.TransGen.head'_iff]
  simp only [mem_directOverrides]

/-- A virtual callsite with a static target, a method that overrides it, and no such target yet. -/
structure IsCandidate (targets : List CallTarget) (edges : List GraphEdge) (site : CallSite)
    (target : Identifier) : Prop where
  isVirtual : site.dispatchKind = .virtual
  overrides : ∃ base, site.staticTargetSymbolId = some base ∧
    Relation.TransGen (Overrides edges site.buildVariant) base target
  isNew : ∀ known ∈ targets, targetKey known ≠ (site.id, target)

/-- The callsites, targets and edges of a batch, before any candidate was added. -/
structure CallFacts where
  callsites : List CallSite
  targets : List CallTarget
  edges : List GraphEdge
  callsitesNodup : (callsites.map CallSite.id).Nodup
  targetsNodup : (targets.map targetKey).Nodup
  underived : ∀ target ∈ targets, target.derivation ≠ overrideDerivation

/-! ## The loop over the callsites -/

variable [NativeLibrary] {targets : List CallTarget}

abbrev ResultEntry := TargetKey × CallTarget

/-- What one callsite adds. -/
theorem mem_addCandidates (site : CallSite) (visited : List Identifier) (entry : ResultEntry) :
    ∀ result : List ResultEntry, entry ∈ visited.foldl (addCandidate site) result ↔
      entry ∈ result ∨ ∃ target ∈ visited, (site.id, target) ∉ result.map Prod.fst ∧
        entry = ((site.id, target), candidate site target) := by
  induction visited with
  | nil => simp
  | cons first visited ih =>
      intro result
      rw [List.foldl_cons, ih]
      unfold addCandidate insertNew
      split
      · rename_i hknown
        constructor
        · rintro (h | ⟨target, htarget, hnew, rfl⟩)
          · exact .inl h
          · exact .inr ⟨target, List.mem_cons_of_mem _ htarget, hnew, rfl⟩
        · rintro (h | ⟨target, htarget, hnew, rfl⟩)
          · exact .inl h
          · rcases List.mem_cons.mp htarget with rfl | htarget
            · exact absurd hknown hnew
            · exact .inr ⟨target, htarget, hnew, rfl⟩
      · rename_i hfirst
        simp only [List.map_append, List.map_cons, List.map_nil, List.mem_append,
          List.mem_singleton, not_or]
        constructor
        · rintro ((h | h) | ⟨target, htarget, hnew, rfl⟩)
          · exact .inl h
          · exact .inr ⟨first, List.mem_cons_self, hfirst, h⟩
          · exact .inr ⟨target, List.mem_cons_of_mem _ htarget, hnew.1, rfl⟩
        · rintro (h | ⟨target, htarget, hnew, rfl⟩)
          · exact .inl (.inl h)
          · by_cases hsame : target = first
            · subst hsame
              exact .inl (.inr rfl)
            · rcases List.mem_cons.mp htarget with hfirst' | htarget
              · exact absurd hfirst' hsame
              · refine .inr ⟨target, htarget, ⟨hnew, fun heq => hsame ?_⟩, rfl⟩
                exact (Prod.mk.inj heq).2

theorem nodup_addCandidates (site : CallSite) (visited : List Identifier) :
    ∀ {result : List ResultEntry}, (result.map Prod.fst).Nodup →
      ((visited.foldl (addCandidate site) result).map Prod.fst).Nodup := by
  induction visited with
  | nil => exact fun h => h
  | cons first visited ih =>
      intro result h
      exact ih (nodup_insertNew h _)

/-- What the loop has made of the targets and the callsites before it. -/
structure Added (targets : List CallTarget) (edges : List GraphEdge) (done : List CallSite)
    (result : List ResultEntry) : Prop where
  nodup : (result.map Prod.fst).Nodup
  mem_iff : ∀ entry, entry ∈ result ↔ (entry.2 ∈ targets ∧ entry.1 = targetKey entry.2) ∨
    ∃ site ∈ done, ∃ target, IsCandidate targets edges site target ∧
      entry = ((site.id, target), candidate site target)

omit [NativeLibrary] in
/-- The methods that a traversal finds from the static target of a callsite. -/
theorem exists_visited (edges : List GraphEdge) (variant : String) (base : Identifier) :
    ∃ enough, ∀ fuel ≥ enough, ∃ visited,
      traverse (directOverrides edges variant) fuel (directOverrides edges variant base) [] =
        some visited ∧
      ∀ target, target ∈ visited ↔ Relation.TransGen (Overrides edges variant) base target := by
  have hall (item other : Identifier) (hother : other ∈ directOverrides edges variant item) :
      other ∈ (edges.map GraphEdge.sourceId).dedup := by
    obtain ⟨edge, hedge, -, -, -, rfl⟩ := mem_directOverrides.mp hother
    exact List.mem_dedup.mpr (List.mem_map_of_mem hedge)
  refine ⟨stepsLeft (directOverrides edges variant) (edges.map GraphEdge.sourceId).dedup
    (directOverrides edges variant base) [], fun fuel hfuel => ?_⟩
  obtain ⟨visited, hvisited⟩ := traverse_isSome (List.nodup_dedup _) hall fuel (hall base) hfuel
  have hstart : Progress (directOverrides edges variant) (directOverrides edges variant base)
      (directOverrides edges variant base) [] := Progress.initial fun _ => Iff.rfl
  have hprogress := traverse_progress hvisited hstart
  exact ⟨visited, hvisited, fun target => hprogress.mem_iff.trans leads_directOverrides⟩

/-- One callsite with an identifier of its own. -/
theorem addSite_spec {done : List CallSite} (site : CallSite)
    (hsite : ∀ other ∈ done, other.id ≠ site.id) : ∃ enough, ∀ fuel ≥ enough,
      ∀ result, Added targets edges done result →
        ∃ result', addSite fuel edges result site = some result' ∧
          Added targets edges (done ++ [site]) result' := by
  have hskip (hnone : ∀ target, ¬ IsCandidate targets edges site target)
      {result : List ResultEntry} (h : Added targets edges done result) :
      Added targets edges (done ++ [site]) result := by
    refine ⟨h.nodup, fun entry => (h.mem_iff entry).trans (or_congr_right ?_)⟩
    constructor
    · rintro ⟨other, hother, target, hcandidate⟩
      exact ⟨other, List.mem_append_left _ hother, target, hcandidate⟩
    · rintro ⟨other, hother, target, hcandidate, hentry⟩
      rcases List.mem_append.mp hother with hother | hother
      · exact ⟨other, hother, target, hcandidate, hentry⟩
      · rw [List.mem_singleton.mp hother] at hcandidate
        exact absurd hcandidate (hnone target)
  cases hkind : site.dispatchKind with
  | virtual =>
      cases hbase : site.staticTargetSymbolId with
      | none =>
          refine ⟨0, fun fuel _ result h => ⟨result, by simp [addSite, hkind, hbase],
            hskip (fun target hcandidate => ?_) h⟩⟩
          obtain ⟨base, hstatic, -⟩ := hcandidate.overrides
          rw [hbase] at hstatic
          cases hstatic
      | some base =>
          obtain ⟨enough, henough⟩ := exists_visited edges site.buildVariant base
          refine ⟨enough, fun fuel hfuel result h => ?_⟩
          obtain ⟨visited, hvisited, hmem⟩ := henough fuel hfuel
          refine ⟨visited.foldl (addCandidate site) result, ?_,
            nodup_addCandidates site visited h.nodup, fun entry => ?_⟩
          · simp only [addSite, hkind, hbase, hvisited]
            rfl
          · -- an entry with the callsite's identifier is one of the targets
            have hnew (target : Identifier) : (site.id, target) ∉ result.map Prod.fst ↔
                ∀ known ∈ targets, targetKey known ≠ (site.id, target) := by
              constructor
              · intro habsent known hknown hkey
                apply habsent
                rw [← hkey]
                exact List.mem_map_of_mem ((h.mem_iff (targetKey known, known)).mpr
                  (.inl ⟨hknown, rfl⟩))
              · intro hknown hmem
                obtain ⟨found, hfound, hkey⟩ := List.mem_map.mp hmem
                rcases (h.mem_iff found).mp hfound with ⟨hfound, hown⟩ | ⟨other, hother, _, _, rfl⟩
                · exact hknown _ hfound (hown.symm.trans hkey)
                · exact hsite other hother (Prod.mk.inj hkey).1
            have hcandidate (target : Identifier) : IsCandidate targets edges site target ↔
                target ∈ visited ∧ (site.id, target) ∉ result.map Prod.fst := by
              rw [hmem, hnew]
              constructor
              · rintro ⟨-, ⟨base', hstatic, hpath⟩, hnew⟩
                rw [hbase] at hstatic
                cases hstatic
                exact ⟨hpath, hnew⟩
              · rintro ⟨hpath, hnew⟩
                exact ⟨hkind, ⟨base, hbase, hpath⟩, hnew⟩
            rw [mem_addCandidates, h.mem_iff entry, or_assoc]
            refine or_congr_right ?_
            constructor
            · rintro (⟨other, hother, hrest⟩ | ⟨target, htarget, hnew, rfl⟩)
              · exact ⟨other, List.mem_append_left _ hother, hrest⟩
              · exact ⟨site, by simp, target, (hcandidate target).mpr ⟨htarget, hnew⟩, rfl⟩
            · rintro ⟨other, hother, target, hcand, rfl⟩
              rcases List.mem_append.mp hother with hother | hother
              · exact .inl ⟨other, hother, target, hcand, rfl⟩
              · rw [List.mem_singleton.mp hother] at hcand ⊢
                obtain ⟨htarget, hnew⟩ := (hcandidate target).mp hcand
                exact .inr ⟨target, htarget, hnew, rfl⟩
  | _ =>
      refine ⟨0, fun fuel _ result h => ⟨result, by simp [addSite, hkind],
        hskip (fun target hcandidate => ?_) h⟩⟩
      have := hcandidate.isVirtual
      rw [hkind] at this
      cases this

theorem addSites_spec (sites : List CallSite) : ∀ {done : List CallSite},
    ((done ++ sites).map CallSite.id).Nodup → ∃ enough, ∀ fuel ≥ enough,
      ∀ result, Added targets edges done result →
        ∃ result', sites.foldlM (addSite fuel edges) result = some result' ∧
          Added targets edges (done ++ sites) result' := by
  induction sites with
  | nil =>
      intro done _
      refine ⟨0, fun fuel _ result h => ⟨result, rfl, ?_⟩⟩
      rwa [List.append_nil]
  | cons site sites ih =>
      intro done hnodup
      have hsite : ∀ other ∈ done, other.id ≠ site.id := by
        intro other hother
        rw [List.map_append, List.nodup_append] at hnodup
        exact hnodup.2.2 _ (List.mem_map_of_mem hother) _ (List.mem_map_of_mem List.mem_cons_self)
      obtain ⟨enough, henough⟩ := @addSite_spec edges _ targets done site hsite
      obtain ⟨more, hmore⟩ := @ih (done ++ [site]) (by rwa [List.append_assoc])
      refine ⟨max enough more, fun fuel hfuel result h => ?_⟩
      obtain ⟨middle, hmiddle, hadded⟩ := henough fuel (by omega) result h
      obtain ⟨result', hresult, hadded'⟩ := hmore fuel (by omega) middle hadded
      rw [List.append_assoc] at hadded'
      refine ⟨result', ?_, hadded'⟩
      rw [List.foldlM_cons, hmiddle]
      exact hresult

omit [NativeLibrary] in
theorem foldl_upsert (targets : List CallTarget) : ∀ {result : List ResultEntry},
    (result.map Prod.fst ++ targets.map targetKey).Nodup →
      targets.foldl (fun result target => upsert result (targetKey target) target) result =
        result ++ targets.map fun target => (targetKey target, target) := by
  induction targets with
  | nil => exact fun _ => (List.append_nil _).symm
  | cons target targets ih =>
      intro result hnodup
      have hnew : result.any (fun entry => entry.1 = targetKey target) = false := by
        rw [List.any_eq_false]
        intro entry hentry
        have := (List.nodup_append.mp hnodup).2.2 _ (List.mem_map_of_mem hentry) _
          List.mem_cons_self
        simpa using this
      have hupsert : upsert result (targetKey target) target =
          result ++ [(targetKey target, target)] := by
        unfold upsert
        rw [hnew]
        rfl
      rw [List.foldl_cons, hupsert, ih, List.append_assoc]
      · rfl
      · rw [List.map_append, List.append_assoc]
        exact hnodup

/-- The targets of a batch and its candidates, each once, are the result. -/
theorem addIndexedOverrideCandidates_spec (facts : CallFacts) : ∃ enough, ∀ fuel ≥ enough,
    ∃ result, addIndexedOverrideCandidates fuel facts.callsites facts.targets facts.edges =
        some result ∧ (result.map targetKey).Nodup ∧
      ∀ target, target ∈ result ↔ target ∈ facts.targets ∨
        ∃ site ∈ facts.callsites, ∃ method,
          IsCandidate facts.targets facts.edges site method ∧ target = candidate site method := by
  have hstart : facts.targets.foldl
      (fun result target => upsert result (targetKey target) target) [] =
      facts.targets.map fun target => (targetKey target, target) :=
    foldl_upsert facts.targets facts.targetsNodup
  have hadded : Added facts.targets facts.edges []
      (facts.targets.map fun target => (targetKey target, target)) := by
    refine ⟨?_, fun entry => ?_⟩
    · rw [List.map_map]
      exact facts.targetsNodup
    · constructor
      · intro h
        obtain ⟨target, htarget, rfl⟩ := List.mem_map.mp h
        exact .inl ⟨htarget, rfl⟩
      · rintro (⟨htarget, hkey⟩ | ⟨site, hsite, -⟩)
        · exact List.mem_map.mpr ⟨entry.2, htarget, Prod.ext hkey.symm rfl⟩
        · cases hsite
  obtain ⟨enough, henough⟩ := @addSites_spec facts.edges _ facts.targets facts.callsites []
    facts.callsitesNodup
  refine ⟨enough, fun fuel hfuel => ?_⟩
  obtain ⟨result, hresult, hadded⟩ := henough fuel hfuel _ hadded
  have hkeyed : ∀ entry ∈ result, targetKey entry.2 = entry.1 := by
    intro entry hentry
    rcases (hadded.mem_iff entry).mp hentry with ⟨-, hkey⟩ | ⟨_, _, _, _, rfl⟩
    · exact hkey.symm
    · rfl
  refine ⟨(result.map Prod.snd).mergeSort targetOrder, ?_, ?_, fun target => ?_⟩
  · unfold addIndexedOverrideCandidates
    rw [hstart, hresult]
    rfl
  · have hperm := (List.mergeSort_perm (result.map Prod.snd) targetOrder).map targetKey
    have hkeys : (result.map Prod.snd).map targetKey = result.map Prod.fst := by
      rw [List.map_map]
      exact List.map_congr_left hkeyed
    rw [hperm.nodup_iff, hkeys]
    exact hadded.nodup
  · rw [List.mem_mergeSort, List.mem_map]
    constructor
    · rintro ⟨entry, hentry, rfl⟩
      rcases (hadded.mem_iff entry).mp hentry with ⟨htarget, -⟩ | ⟨site, hsite, method, hcand, rfl⟩
      · exact .inl htarget
      · exact .inr ⟨site, hsite, method, hcand, rfl⟩
    · rintro (htarget | ⟨site, hsite, method, hcand, rfl⟩)
      · exact ⟨(targetKey target, target), (hadded.mem_iff _).mpr (.inl ⟨htarget, rfl⟩), rfl⟩
      · exact ⟨((site.id, method), candidate site method),
          (hadded.mem_iff _).mpr (.inr ⟨site, hsite, method, hcand, rfl⟩), rfl⟩

end Spec

end CppContextEngine.Ingestion
