import CppContextEngine.Analysis.CallGraph

/-!
# What one transfer computes

The effects of a transfer are the local ones overwritten edge by edge, its
reasons are the caller's own ones and at most one more that comes from the
environment, and all of it reads only the entries of the callees.
-/

namespace CppContextEngine.Analysis

open CppContextEngine.Foundation CppContextEngine.Models

/-! ## Reasons -/

namespace Reasons

theorem mem_note {reasons : Reasons} {reason : IncompleteReason} {text : String} :
    text ∈ (reasons.note reason).texts ↔ text ∈ reasons.texts ∨ text = reason.text := by
  simp only [note, Std.ExtTreeSet.mem_insert, Std.compare_eq_iff_eq]
  rw [or_comm, eq_comm]

theorem mem_noteIf {reasons : Reasons} {condition : Prop} [Decidable condition]
    {reason : IncompleteReason} {text : String} :
    text ∈ (reasons.noteIf condition reason).texts ↔
      text ∈ reasons.texts ∨ (condition ∧ text = reason.text) := by
  unfold noteIf
  split <;> rename_i h
  · simp [mem_note, h]
  · simp [h]

theorem mem_ofLocal {summary : FunctionSummary} {text : String} :
    text ∈ (ofLocal summary).texts ↔ text ∈ summary.localIncompleteReasons := by
  simp [ofLocal]

theorem mem_sorted {reasons : Reasons} {text : String} :
    text ∈ reasons.sorted ↔ text ∈ reasons.texts := by
  simp [sorted]

theorem isEmpty_eq_true {reasons : Reasons} :
    reasons.texts.isEmpty = true ↔ ∀ text, text ∉ reasons.texts := by
  rw [Std.ExtTreeSet.isEmpty_iff]
  constructor
  · intro h text
    simp [h]
  · intro h
    exact Std.ExtTreeSet.ext_mem fun {text} => by simp [h text]

end Reasons

namespace Problem

variable [Fingerprint] (p : Problem)

/-- A reason that a transfer of `caller` adds in every environment. -/
inductive StaticReason (caller : FunctionSummary) : String → Prop where
  | own {text : String} : text ∈ caller.localIncompleteReasons → StaticReason caller text
  | oversized : p.isOversized caller.id = true →
      StaticReason caller IncompleteReason.sccSizeCapExceeded.text
  | openSite {site : SummaryCallSiteProjection} : site ∈ p.ownerSites caller →
      site.targetSetComplete = false ∨ p.siteTargets site = [] →
      StaticReason caller IncompleteReason.unknownOrExternalCallTarget.text
  | noBody {site : SummaryCallSiteProjection} {target : SummaryCallTargetProjection}
      {text : String} : site ∈ p.ownerSites caller → target ∈ p.siteTargets site →
      (p.calleeBodies caller target).1 = [] →
      text = IncompleteReason.externalOrUnindexedCalleeBody.text ∨
        text = IncompleteReason.unknownOrExternalCallTarget.text →
      StaticReason caller text
  | ambiguous {site : SummaryCallSiteProjection} {target : SummaryCallTargetProjection} :
      site ∈ p.ownerSites caller → target ∈ p.siteTargets site →
      (p.calleeBodies caller target).2 = true →
      StaticReason caller IncompleteReason.multipleCalleeBodyVariants.text
  | missingBinding {edge : CallEdge} {index : Nat} : edge ∈ p.callerEdges caller →
      index < edge.callee.parameterLocationIds.length →
      p.binding? caller edge.site index = none →
      StaticReason caller IncompleteReason.missingCallArgumentBinding.text
  | incompleteBinding {edge : CallEdge} {index : Nat} {binding : CallArgumentBinding} :
      edge ∈ p.callerEdges caller → index < edge.callee.parameterLocationIds.length →
      p.binding? caller edge.site index = some binding → binding.complete = false →
      StaticReason caller IncompleteReason.incompleteCallArgumentBinding.text

/-- A reason that one parameter of an edge gives. -/
def BindingReason (caller : FunctionSummary) (edge : CallEdge) (text : String) (index : Nat) :
    Prop :=
  (p.binding? caller edge.site index = none ∧
      text = IncompleteReason.missingCallArgumentBinding.text) ∨
    ∃ binding, p.binding? caller edge.site index = some binding ∧ binding.complete = false ∧
      text = IncompleteReason.incompleteCallArgumentBinding.text

omit [Fingerprint] in
theorem mem_bindingReasons {caller : FunctionSummary} {edge : CallEdge} {reasons : Reasons}
    {text : String} :
    text ∈ (p.bindingReasons caller edge reasons).texts ↔ text ∈ reasons.texts ∨
      ∃ index ∈ List.range edge.callee.parameterLocationIds.length,
        p.BindingReason caller edge text index := by
  refine foldl_adds (P := fun reasons : Reasons => text ∈ reasons.texts) ?_ _ reasons
  intro reasons index
  cases hbinding : p.binding? caller edge.site index with
  | none => simp [BindingReason, hbinding, Reasons.mem_note]
  | some binding =>
      cases hcomplete : binding.complete <;>
        simp [BindingReason, hbinding, hcomplete, Reasons.mem_note]

/-- A reason that one resolved call gives in `current`. -/
def EdgeReason (current : Environment) (caller : FunctionSummary) (text : String)
    (edge : CallEdge) : Prop :=
  (∃ index ∈ List.range edge.callee.parameterLocationIds.length,
      p.BindingReason caller edge text index) ∨
    current.incomplete edge.callee.id = true ∧
      text = IncompleteReason.calleeSummaryIncomplete.text

/-- A reason that one target gives in `current`. -/
def TargetReason (current : Environment) (caller : FunctionSummary)
    (site : SummaryCallSiteProjection) (text : String)
    (target : SummaryCallTargetProjection) : Prop :=
  ((p.calleeBodies caller target).1 = [] ∧
      (text = IncompleteReason.externalOrUnindexedCalleeBody.text ∨
        text = IncompleteReason.unknownOrExternalCallTarget.text)) ∨
    ((p.calleeBodies caller target).2 = true ∧
      text = IncompleteReason.multipleCalleeBodyVariants.text) ∨
    ∃ edge ∈ p.targetEdges caller site target, p.EdgeReason current caller text edge

/-- A reason that one callsite gives in `current`. -/
def SiteReason (current : Environment) (caller : FunctionSummary) (text : String)
    (site : SummaryCallSiteProjection) : Prop :=
  ((site.targetSetComplete = false ∨ p.siteTargets site = []) ∧
      text = IncompleteReason.unknownOrExternalCallTarget.text) ∨
    ∃ target ∈ p.siteTargets site, p.TargetReason current caller site text target

theorem mem_transferTarget {current : Environment} {caller : FunctionSummary}
    {site : SummaryCallSiteProjection} {draft : Draft} {target : SummaryCallTargetProjection}
    {text : String} :
    text ∈ (p.transferTarget current caller site draft target).reasons.texts ↔
      text ∈ draft.reasons.texts ∨ p.TargetReason current caller site text target := by
  simp only [transferTarget]
  rw [foldl_adds (P := fun draft : Draft => text ∈ draft.reasons.texts)
    (Q := p.EdgeReason current caller text) (fun draft edge => by
      simp only [transferCallee, Reasons.mem_noteIf, mem_bindingReasons, EdgeReason, or_assoc])]
  simp only [Reasons.mem_noteIf, TargetReason]
  tauto

theorem mem_transferSite {current : Environment} {caller : FunctionSummary} {draft : Draft}
    {site : SummaryCallSiteProjection} {text : String} :
    text ∈ (p.transferSite current caller draft site).reasons.texts ↔
      text ∈ draft.reasons.texts ∨ p.SiteReason current caller text site := by
  simp only [transferSite]
  rw [foldl_adds (P := fun draft : Draft => text ∈ draft.reasons.texts)
    (Q := p.TargetReason current caller site text) (fun draft target => p.mem_transferTarget)]
  simp only [Reasons.mem_noteIf, SiteReason, or_assoc]

omit [Fingerprint] in
theorem mem_initialDraft_reasons {caller : FunctionSummary} {text : String} :
    text ∈ (p.initialDraft caller).reasons.texts ↔ text ∈ caller.localIncompleteReasons ∨
      (p.isOversized caller.id = true ∧ text = IncompleteReason.sccSizeCapExceeded.text) := by
  simp [initialDraft, Reasons.mem_noteIf, Reasons.mem_ofLocal]

/-- The environment contributes one reason only: an incomplete callee. -/
theorem mem_transferDraft {current : Environment} {caller : FunctionSummary} {text : String} :
    text ∈ (p.transferDraft current caller).reasons.texts ↔
      p.StaticReason caller text ∨ (text = IncompleteReason.calleeSummaryIncomplete.text ∧
        ∃ edge ∈ p.callerEdges caller, current.incomplete edge.callee.id = true) := by
  rw [transferDraft, foldl_adds (P := fun draft : Draft => text ∈ draft.reasons.texts)
    (Q := p.SiteReason current caller text) (fun draft site => p.mem_transferSite),
    mem_initialDraft_reasons]
  constructor
  · rintro ((hown | ⟨hoversized, rfl⟩) | ⟨site, hsite, ⟨hopen, rfl⟩ | ⟨target, htarget, hreason⟩⟩)
    · exact .inl (.own hown)
    · exact .inl (.oversized hoversized)
    · exact .inl (.openSite hsite hopen)
    rcases hreason with ⟨hnone, htext⟩ | ⟨hambiguous, rfl⟩ | ⟨edge, hedge, hreason⟩
    · exact .inl (.noBody hsite htarget hnone htext)
    · exact .inl (.ambiguous hsite htarget hambiguous)
    have hmem : edge ∈ p.callerEdges caller :=
      List.mem_flatMap.mpr ⟨site, hsite, List.mem_flatMap.mpr ⟨target, htarget, hedge⟩⟩
    rcases hreason with ⟨index, hindex, hbinding⟩ | ⟨hcallee, rfl⟩
    · rw [List.mem_range] at hindex
      rcases hbinding with ⟨hnone, rfl⟩ | ⟨binding, hsome, hcomplete, rfl⟩
      · exact .inl (.missingBinding hmem hindex hnone)
      · exact .inl (.incompleteBinding hmem hindex hsome hcomplete)
    · exact .inr ⟨rfl, edge, hmem, hcallee⟩
  · have hedges {edge : CallEdge} (hedge : edge ∈ p.callerEdges caller)
        (hreason : p.EdgeReason current caller text edge) :
        ∃ site ∈ p.ownerSites caller, p.SiteReason current caller text site := by
      obtain ⟨site, hsite, htargets⟩ := List.mem_flatMap.mp hedge
      obtain ⟨target, htarget, hedge⟩ := List.mem_flatMap.mp htargets
      exact ⟨site, hsite, .inr ⟨target, htarget, .inr (.inr ⟨edge, hedge, hreason⟩)⟩⟩
    rintro (hstatic | ⟨rfl, edge, hedge, hcallee⟩)
    · cases hstatic with
      | own h => exact .inl (.inl h)
      | oversized h => exact .inl (.inr ⟨h, rfl⟩)
      | openSite hsite h => exact .inr ⟨_, hsite, .inl ⟨h, rfl⟩⟩
      | noBody hsite htarget h htext => exact .inr ⟨_, hsite, .inr ⟨_, htarget, .inl ⟨h, htext⟩⟩⟩
      | ambiguous hsite htarget h =>
          exact .inr ⟨_, hsite, .inr ⟨_, htarget, .inr (.inl ⟨h, rfl⟩)⟩⟩
      | missingBinding hedge hindex h =>
          exact .inr (hedges hedge (.inl ⟨_, List.mem_range.mpr hindex, .inl ⟨h, rfl⟩⟩))
      | incompleteBinding hedge hindex h hcomplete =>
          exact .inr (hedges hedge
            (.inl ⟨_, List.mem_range.mpr hindex, .inr ⟨_, h, hcomplete, rfl⟩⟩))
    · exact .inr (hedges hedge (.inr ⟨hcallee, rfl⟩))

theorem mem_transfer_reasons {current : Environment} {caller : FunctionSummary}
    {text : String} :
    text ∈ (p.transfer current caller).reasons.texts ↔
      p.StaticReason caller text ∨ (text = IncompleteReason.calleeSummaryIncomplete.text ∧
        ∃ edge ∈ p.callerEdges caller, current.incomplete edge.callee.id = true) ∨
      (p.limits.maxSummaryEffects < (p.transferDraft current caller).effects.items.length ∧
        text = IncompleteReason.summaryEffectCapExceeded.text) := by
  simp only [transfer, Reasons.mem_noteIf, mem_transferDraft, or_assoc]

/-! ## Effects and origins -/

omit [Fingerprint] in
theorem mem_effects {current : Environment} {id : String} {effect : SummaryEffect} :
    effect ∈ current.effects id ↔ ∃ facts, current[id]? = some facts ∧ effect ∈ facts.effects := by
  unfold Environment.effects
  cases current[id]? <;> simp

omit [Fingerprint] in
theorem mem_origins {current : Environment} {id : String} {origin : SummaryReturnOrigin} :
    origin ∈ current.origins id ↔
      ∃ facts, current[id]? = some facts ∧ origin ∈ facts.origins := by
  unfold Environment.origins
  cases current[id]? <;> simp

/-- A part of the draft that no reason touches is folded over the resolved calls. -/
theorem transferDraft_project {γ : Type} (part : Draft → γ) (step : γ → CallEdge → γ)
    {current : Environment} {caller : FunctionSummary}
    (hedge : ∀ draft edge,
      part (p.transferCallee current caller draft edge) = step (part draft) edge)
    (hreasons : ∀ draft reasons, part { draft with reasons := reasons } = part draft) :
    part (p.transferDraft current caller) =
      (p.callerEdges caller).foldl step (part (p.initialDraft caller)) := by
  have htarget (site : SummaryCallSiteProjection) (draft : Draft)
      (target : SummaryCallTargetProjection) :
      part (p.transferTarget current caller site draft target) =
        (p.targetEdges caller site target).foldl step (part draft) := by
    simp only [transferTarget]
    rw [foldl_part part step hedge, hreasons]
  have hsite (draft : Draft) (site : SummaryCallSiteProjection) :
      part (p.transferSite current caller draft site) =
        (p.siteEdges caller site).foldl step (part draft) := by
    simp only [transferSite, siteEdges, List.foldl_flatMap]
    rw [foldl_part part (fun state target => (p.targetEdges caller site target).foldl step state)
      (htarget site), hreasons]
  simp only [transferDraft, callerEdges, List.foldl_flatMap]
  exact foldl_part part (fun state site => (p.siteEdges caller site).foldl step state) hsite _ _

omit [Fingerprint] in
theorem foldl_put (key : SummaryEffect → String) (contribution : CallEdge → List SummaryEffect)
    (edges : List CallEdge) : ∀ table : Table SummaryEffect,
    edges.foldl (fun table edge => table.put key (contribution edge)) table =
      table.put key (edges.flatMap contribution) := by
  induction edges with
  | nil => exact fun _ => rfl
  | cons edge edges ih =>
      intro table
      rw [List.foldl_cons, ih, List.flatMap_cons, Table.put_append]

/-- Everything a transfer writes into its effects, in order. -/
def effectWrites (current : Environment) (caller : FunctionSummary) : List SummaryEffect :=
  p.localEffectsOf caller.id ++ (p.callerEdges caller).flatMap (p.edgeEffects current caller)

theorem transferDraft_effects (current : Environment) (caller : FunctionSummary) :
    (p.transferDraft current caller).effects =
      Table.put SummaryEffect.id ∅ (p.effectWrites current caller) := by
  rw [p.transferDraft_project Draft.effects
    (fun effects edge => effects.put SummaryEffect.id (p.edgeEffects current caller edge))
    (fun _ _ => rfl) (fun _ _ => rfl), foldl_put, effectWrites, Table.put_append]
  rfl

/-- One resolved call writes its origins when the current ones ask for them. -/
def originStep (current : Environment) (caller : FunctionSummary)
    (origins : Table SummaryReturnOrigin) (edge : CallEdge) : Table SummaryReturnOrigin :=
  if origins.items.any (marks edge.site) then
    origins.put SummaryReturnOrigin.id (p.edgeOrigins current caller edge)
  else origins

def initialOrigins (caller : FunctionSummary) : Table SummaryReturnOrigin :=
  Table.put SummaryReturnOrigin.id ∅ (p.localOriginsOf caller.id)

theorem transferDraft_origins (current : Environment) (caller : FunctionSummary) :
    (p.transferDraft current caller).origins =
      (p.callerEdges caller).foldl (p.originStep current caller) (p.initialOrigins caller) :=
  p.transferDraft_project Draft.origins (p.originStep current caller) (fun _ _ => rfl)
    (fun _ _ => rfl)

theorem transferDraft_effects_keyed (current : Environment) (caller : FunctionSummary) :
    (p.transferDraft current caller).effects.Keyed SummaryEffect.id := by
  rw [transferDraft_effects]
  exact (Table.Keyed.empty _).put

theorem mem_transfer_effects {current : Environment} {caller : FunctionSummary}
    {effect : SummaryEffect} (h : effect ∈ (p.transfer current caller).effects) :
    effect ∈ p.effectWrites current caller := by
  have hmem := List.mem_of_mem_take h
  rw [transferDraft_effects] at hmem
  exact (Table.mem_items_put hmem).resolve_left (by simp)

theorem propagateOrigin_unmarked (caller : FunctionSummary)
    (site : SummaryCallSiteProjection) (target : SummaryCallTargetProjection)
    (origin : SummaryReturnOrigin) (bodyAmbiguous : Bool) (other : SummaryCallSiteProjection) :
    marks other (p.propagateOrigin caller site target origin bodyAmbiguous) = false := by
  simp only [marks, propagateOrigin, originRow]
  split <;> simp

/-- An origin of `caller` is local or comes through a call that a local marker asks for. -/
def OriginSource (current : Environment) (caller : FunctionSummary)
    (origin : SummaryReturnOrigin) : Prop :=
  origin ∈ p.localOriginsOf caller.id ∨
    ∃ edge ∈ p.callerEdges caller, origin ∈ p.edgeOrigins current caller edge ∧
      ∃ marker ∈ p.localOriginsOf caller.id, marks edge.site marker = true

theorem originStep_source {current : Environment} {caller : FunctionSummary}
    {table : Table SummaryReturnOrigin} {edge : CallEdge} (hedge : edge ∈ p.callerEdges caller)
    (h : ∀ origin ∈ table.items, p.OriginSource current caller origin) :
    ∀ origin ∈ (p.originStep current caller table edge).items,
      p.OriginSource current caller origin := by
  intro origin horigin
  unfold originStep at horigin
  split at horigin
  · rename_i hmarked
    rcases Table.mem_items_put horigin with hold | hnew
    · exact h origin hold
    · obtain ⟨marker, hmarker, hmarks⟩ := List.any_eq_true.mp hmarked
      refine .inr ⟨edge, hedge, hnew, marker, ?_, hmarks⟩
      refine (h marker hmarker).resolve_right ?_
      rintro ⟨other, -, hpropagated, -⟩
      obtain ⟨source, -, rfl⟩ := List.mem_map.mp hpropagated
      rw [propagateOrigin_unmarked] at hmarks
      cases hmarks
  · exact h origin horigin

theorem mem_transfer_origins {current : Environment} {caller : FunctionSummary}
    {origin : SummaryReturnOrigin} (h : origin ∈ (p.transfer current caller).origins) :
    p.OriginSource current caller origin := by
  have hfold : ∀ (edges : List CallEdge), (∀ edge ∈ edges, edge ∈ p.callerEdges caller) →
      ∀ table : Table SummaryReturnOrigin,
        (∀ origin ∈ table.items, p.OriginSource current caller origin) →
        ∀ origin ∈ (edges.foldl (p.originStep current caller) table).items,
          p.OriginSource current caller origin := by
    intro edges
    induction edges with
    | nil => exact fun _ table h => h
    | cons edge edges ih =>
        intro hedges table htable
        exact ih (fun other hother => hedges other (List.mem_cons_of_mem _ hother)) _
          (p.originStep_source (hedges edge List.mem_cons_self) htable)
  simp only [transfer, transferDraft_origins] at h
  refine hfold _ (fun _ hedge => hedge) _ (fun initial hinitial => .inl ?_) origin h
  exact (Table.mem_items_put hinitial).resolve_left (by simp)

end Problem

end CppContextEngine.Analysis
