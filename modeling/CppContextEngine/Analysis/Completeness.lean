import CppContextEngine.Analysis.Passes

/-!
# Completeness never overclaims

A summary without reasons is stable, none of its calls is open, and none of its
callees has a reason.  So everything that is reachable from a complete summary
is complete too.
-/

namespace CppContextEngine.Analysis

open CppContextEngine.Foundation CppContextEngine.Models

variable [Fingerprint] {p : Problem}

namespace Problem

/-- `callee` is what a resolved call of `caller` runs. -/
def CallsBody (p : Problem) (caller callee : FunctionSummary) : Prop :=
  ∃ edge ∈ p.callerEdges caller, p.summaryById edge.callee.id = some callee

/-- Nothing about the calls of `summary` is unknown, and no limit cut its facts. -/
structure Exhaustive (p : Problem) (summary : FunctionSummary) : Prop where
  locally : summary.localComplete = true
  targetSets : ∀ site ∈ p.ownerSites summary,
    site.targetSetComplete = true ∧ p.siteTargets site ≠ []
  bodies : ∀ site ∈ p.ownerSites summary, ∀ target ∈ p.siteTargets site,
    ∃ body, p.calleeBodies summary target = ([body], false)
  bindings : ∀ edge ∈ p.callerEdges summary,
    ∀ index < edge.callee.parameterLocationIds.length,
      ∃ binding, p.binding? summary edge.site index = some binding ∧ binding.complete = true
  size : ∀ component ∈ p.components, summary.id ∈ component →
    component.length ≤ p.limits.maxSccSize
  iterations : ∀ before component after, p.components = before ++ component :: after →
    summary.id ∈ component →
    ¬ p.IterationCapHit (p.members component) (p.environmentAfter before)
  effects : ∀ before component after, p.components = before ++ component :: after →
    summary.id ∈ component → ∀ pass,
    p.LastPass (p.members component) (p.environmentAfter before) pass →
    (p.transferDraft (p.environmentAt (p.members component) (p.environmentAfter before) pass)
      summary).effects.items.length ≤ p.limits.maxSummaryEffects

/-- The final facts of `summary` carry no reason. -/
def Complete (p : Problem) (summary : FunctionSummary) : Prop :=
  ∃ facts, p.finalEnvironment[summary.id]? = some facts ∧ ∀ text, text ∉ facts.reasons.texts

/-! ## One transfer -/

/-- A transfer without reasons has met no open call. -/
structure Quiet (p : Problem) (current : Environment) (summary : FunctionSummary) : Prop where
  static : ∀ text, ¬ p.StaticReason summary text
  callees : ∀ edge ∈ p.callerEdges summary, current.incomplete edge.callee.id = false
  effects : (p.transferDraft current summary).effects.items.length ≤ p.limits.maxSummaryEffects

theorem quiet_of_transfer {current : Environment} {summary : FunctionSummary}
    (h : ∀ text, text ∉ (p.transfer current summary).reasons.texts) :
    Quiet p current summary where
  static text hstatic := h text ((p.mem_transfer_reasons).mpr (.inl hstatic))
  callees edge hedge := by
    by_contra hincomplete
    exact h _ ((p.mem_transfer_reasons).mpr
      (.inr (.inl ⟨rfl, edge, hedge, by simpa using hincomplete⟩)))
  effects := by
    by_contra hcap
    exact h _ ((p.mem_transfer_reasons).mpr (.inr (.inr ⟨Nat.lt_of_not_le hcap, rfl⟩)))

omit [Fingerprint] in
theorem bodies_of_quiet {summary : FunctionSummary}
    (h : ∀ text, ¬ p.StaticReason summary text) {site : SummaryCallSiteProjection}
    (hsite : site ∈ p.ownerSites summary) {target : SummaryCallTargetProjection}
    (htarget : target ∈ p.siteTargets site) :
    ∃ body, p.calleeBodies summary target = ([body], false) := by
  have hsome : (p.calleeBodies summary target).1 ≠ [] := fun hnone =>
    h _ (.noBody hsite htarget hnone (.inl rfl))
  have hunambiguous : ¬ (p.calleeBodies summary target).2 = true := fun hambiguous =>
    h _ (.ambiguous hsite htarget hambiguous)
  have hflag : (p.calleeBodies summary target).2 =
      decide (1 < (p.calleeBodies summary target).1.length) := rfl
  rw [hflag, decide_eq_true_eq, not_lt] at hunambiguous
  have hlength := List.length_pos_iff.mpr hsome
  obtain ⟨body, hbody⟩ := List.length_eq_one_iff.mp (hunambiguous.antisymm hlength)
  refine ⟨body, Prod.ext hbody ?_⟩
  rw [hflag, hbody]
  rfl

omit [Fingerprint] in
theorem bindings_of_quiet {summary : FunctionSummary}
    (h : ∀ text, ¬ p.StaticReason summary text) {edge : CallEdge}
    (hedge : edge ∈ p.callerEdges summary) {index : Nat}
    (hindex : index < edge.callee.parameterLocationIds.length) :
    ∃ binding, p.binding? summary edge.site index = some binding ∧ binding.complete = true := by
  cases hbinding : p.binding? summary edge.site index with
  | none => exact absurd (.missingBinding hedge hindex hbinding) (h _)
  | some binding =>
      refine ⟨binding, rfl, ?_⟩
      by_contra hcomplete
      exact h _ (.incompleteBinding hedge hindex hbinding (by simpa using hcomplete))

omit [Fingerprint] in
theorem targetSets_of_quiet {summary : FunctionSummary}
    (h : ∀ text, ¬ p.StaticReason summary text) {site : SummaryCallSiteProjection}
    (hsite : site ∈ p.ownerSites summary) :
    site.targetSetComplete = true ∧ p.siteTargets site ≠ [] := by
  by_contra hopen
  refine h _ (.openSite hsite ?_)
  by_cases hset : site.targetSetComplete = true
  · exact .inr (not_not.mp fun hne => hopen ⟨hset, hne⟩)
  · exact .inl (by simpa using hset)

omit [Fingerprint] in
theorem locally_of_quiet {summary : FunctionSummary}
    (h : ∀ text, ¬ p.StaticReason summary text) : summary.localComplete = true := by
  rw [summary.localAgrees, List.isEmpty_iff]
  exact List.eq_nil_iff_forall_not_mem.mpr fun text htext => h text (.own htext)

/-! ## One complete summary -/

section Component

variable {before after : List (List String)} {component : List String}
  (hsplit : p.components = before ++ component :: after)

include hsplit

/-- The limits of a component with a complete member were not hit. -/
theorem limits_of_complete {summary : FunctionSummary} (hmember : summary ∈ p.members component)
    (hcomplete : p.Complete summary) :
    p.oversizedMembers (p.members component) = false ∧
      ¬ p.IterationCapHit (p.members component) (p.environmentAfter before) := by
  obtain ⟨facts, hfacts, hnone⟩ := hcomplete
  obtain ⟨pass, facts', hfacts', houtcome⟩ := final_outcome hsplit hmember
  obtain rfl : facts = facts' := Option.some.inj (hfacts.symm.trans hfacts')
  constructor
  · by_contra hsize
    rw [Bool.not_eq_false, oversizedMembers, List.any_eq_true] at hsize
    obtain ⟨other, hother, hsize⟩ := hsize
    rw [isOversized_iff hsplit ((p.mem_members).mp hother).1,
      ← isOversized_iff hsplit ((p.mem_members).mp hmember).1] at hsize
    exact hnone _ ((houtcome.reasons _).mpr
      (.inl ((p.mem_transfer_reasons).mpr (.inl (.oversized hsize)))))
  · exact fun hcap => hnone _ ((houtcome.reasons _).mpr (.inr ⟨hcap, rfl⟩))

theorem quiet_of_complete {summary : FunctionSummary} (hmember : summary ∈ p.members component)
    (hcomplete : p.Complete summary) : Quiet p p.finalEnvironment summary := by
  obtain ⟨hsize, hcap⟩ := limits_of_complete hsplit hmember hcomplete
  obtain ⟨facts, hfacts, hnone⟩ := hcomplete
  have hstable := final_stable hsplit hmember hsize hcap
  rw [hfacts, Option.some.injEq] at hstable
  exact quiet_of_transfer (hstable ▸ hnone)

/-- The last pass over a complete summary was not truncated. -/
theorem effects_of_complete {summary : FunctionSummary} (hmember : summary ∈ p.members component)
    (hcomplete : p.Complete summary) {pass : Nat}
    (hlast : p.LastPass (p.members component) (p.environmentAfter before) pass) :
    (p.transferDraft (p.environmentAt (p.members component) (p.environmentAfter before) pass)
      summary).effects.items.length ≤ p.limits.maxSummaryEffects := by
  obtain ⟨facts, hfacts, hnone⟩ := hcomplete
  obtain ⟨pass', facts', hfacts', houtcome⟩ := final_outcome hsplit hmember
  obtain rfl : facts = facts' := Option.some.inj (hfacts.symm.trans hfacts')
  obtain rfl : pass = pass' := by
    rcases hlast with ⟨hsingle, rfl⟩ | ⟨hcycle, hcount⟩ <;>
      rcases houtcome.last with ⟨hsingle', rfl⟩ | ⟨hcycle', hcount'⟩
    · rfl
    · exact absurd hsingle hcycle'
    · exact absurd hsingle' hcycle
    · omega
  exact (quiet_of_transfer fun text htext =>
    hnone text ((houtcome.reasons text).mpr (.inl htext))).effects

end Component

omit [Fingerprint] in
theorem exists_member {summary : FunctionSummary}
    (h : p.summaryById summary.id = some summary) :
    ∃ before component after, p.components = before ++ component :: after ∧
      summary ∈ p.members component := by
  have hid : summary.id ∈ p.summaryIds := (p.summaryById_isSome).mp (by rw [h]; rfl)
  obtain ⟨component, hcomponent, hmem⟩ := (p.components_spec.covers _).mp hid
  obtain ⟨before, after, hsplit⟩ := List.append_of_mem hcomponent
  exact ⟨before, component, after, hsplit, (p.mem_members).mpr ⟨hmem, h⟩⟩

theorem exhaustive_of_complete {summary : FunctionSummary}
    (h : p.summaryById summary.id = some summary) (hcomplete : p.Complete summary) :
    p.Exhaustive summary := by
  have hmember {before component after} (hsplit : p.components = before ++ component :: after)
      (hid : summary.id ∈ component) : summary ∈ p.members component :=
    (p.mem_members).mpr ⟨hid, h⟩
  obtain ⟨before, component, after, hsplit, hmem⟩ := exists_member h
  have hquiet := quiet_of_complete hsplit hmem hcomplete
  exact
    { locally := locally_of_quiet hquiet.static
      targetSets := fun _ => targetSets_of_quiet hquiet.static
      bodies := fun _ hsite _ => bodies_of_quiet hquiet.static hsite
      bindings := fun _ hedge _ => bindings_of_quiet hquiet.static hedge
      size := by
        intro other hother hid
        have hsmall : ¬ p.isOversized summary.id = true := fun hsize =>
          hquiet.static _ (.oversized hsize)
        obtain ⟨before', after', hsplit'⟩ := List.append_of_mem hother
        rw [isOversized_iff hsplit' hid] at hsmall
        omega
      iterations := fun _ _ _ hsplit' hid =>
        (limits_of_complete hsplit' (hmember hsplit' hid) hcomplete).2
      effects := fun _ _ _ hsplit' hid _ hlast =>
        effects_of_complete hsplit' (hmember hsplit' hid) hcomplete hlast }

omit [Fingerprint] in
theorem CallsBody.summaryById {caller callee : FunctionSummary} (h : p.CallsBody caller callee) :
    p.summaryById callee.id = some callee := by
  obtain ⟨edge, -, hcallee⟩ := h
  rwa [p.summaryById_id hcallee]

/-- What a complete summary calls is complete. -/
theorem complete_of_calls {caller callee : FunctionSummary}
    (h : p.summaryById caller.id = some caller) (hcomplete : p.Complete caller)
    (hcalls : p.CallsBody caller callee) : p.Complete callee := by
  obtain ⟨before, component, after, hsplit, hmem⟩ := exists_member h
  obtain ⟨before', component', after', hsplit', hmem'⟩ := exists_member hcalls.summaryById
  obtain ⟨_, facts, hfacts, -⟩ := final_outcome hsplit' hmem'
  obtain ⟨edge, hedge, hcallee⟩ := hcalls
  have hquiet := (quiet_of_complete hsplit hmem hcomplete).callees edge hedge
  rw [← p.summaryById_id hcallee] at hquiet
  simp only [Environment.incomplete, hfacts, Option.map_some, Option.getD_some,
    Bool.not_eq_false'] at hquiet
  exact ⟨facts, hfacts, Reasons.isEmpty_eq_true.mp hquiet⟩

theorem reachable_exhaustive {summary target : FunctionSummary}
    (h : p.summaryById summary.id = some summary) (hcomplete : p.Complete summary)
    (hreach : Relation.ReflTransGen p.CallsBody summary target) : p.Exhaustive target := by
  have htarget : p.summaryById target.id = some target ∧ p.Complete target := by
    induction hreach with
    | refl => exact ⟨h, hcomplete⟩
    | tail _ hcalls ih => exact ⟨hcalls.summaryById, complete_of_calls ih.1 ih.2 hcalls⟩
  exact exhaustive_of_complete htarget.1 htarget.2

/-! ## Solutions -/

/-- A solved summary of one build variant comes from a published one. -/
theorem mem_solveVariant {σ : Type} {emit : Emitter σ} {retain : Bool} {owner owner' : σ}
    {solution : InterproceduralSolution}
    (h : p.solveVariant emit retain owner = .ok (solution, owner')) {solved : FunctionSummary}
    (hsolved : solved ∈ solution.summaries) :
    ∃ publication ∈ p.publications, publication.summary = solved := by
  have hretained : ∃ retained, p.solveVariant emit true owner = .ok (retained, owner') ∧
      retained.summaries = solution.summaries := by
    cases retain with
    | true => exact ⟨solution, h, rfl⟩
    | false =>
        rw [solveVariant_streams] at h
        cases hretained : p.solveVariant emit true owner with
        | error e =>
            rw [hretained] at h
            cases h
        | ok result =>
            rw [hretained] at h
            cases h
            exact ⟨result.1, rfl, rfl⟩
  obtain ⟨retained, hretained, hsummaries⟩ := hretained
  rw [← hsummaries, (solved_of_ok hretained).summaries, List.mem_insertionSort] at hsolved
  exact List.mem_map.mp hsolved

/-- What the variants add up to comes from one of them. -/
theorem foldlM_solveNext_mem {σ β : Type} {emit : Emitter σ} {retain : Bool}
    {part : InterproceduralSolution → List β}
    (hpart : ∀ solved solution, part (solved.append solution) = part solved ++ part solution)
    {item : β} (variants : List String) :
    ∀ {state state' : InterproceduralSolution × σ},
      variants.foldlM (p.solveNext emit retain) state = .ok state' →
      item ∈ part state'.1 → item ∈ part state.1 ∨
        ∃ variant solution owner owner',
          (p.restrictTo variant).solveVariant emit retain owner = .ok (solution, owner') ∧
            item ∈ part solution := by
  induction variants with
  | nil =>
      intro state state' h hitem
      cases h
      exact .inl hitem
  | cons variant variants ih =>
      intro state state' h hitem
      rw [List.foldlM_cons] at h
      simp only [solveNext] at h
      cases hvariant : (p.restrictTo variant).solveVariant emit retain state.2 with
      | error e =>
          rw [hvariant] at h
          cases h
      | ok result =>
          rw [hvariant] at h
          rcases ih h hitem with hmem | hlater
          · rcases List.mem_append.mp (hpart _ _ ▸ hmem) with hmem | hmem
            · exact .inl hmem
            · exact .inr ⟨variant, result.1, state.2, result.2, hvariant, hmem⟩
          · exact .inr hlater

theorem mem_solveInterprocedural {σ β : Type} {emit : Emitter σ} {retain : Bool}
    {owner owner' : σ} {solution : InterproceduralSolution}
    (h : p.solveInterprocedural emit retain owner = .ok (solution, owner'))
    (part : InterproceduralSolution → List β)
    (hpart : ∀ solved solution, part (solved.append solution) = part solved ++ part solution)
    (hnone : part ⟨[], [], [], []⟩ = [])
    (hsorted : ∀ solved : InterproceduralSolution, ∀ item, item ∈ part
      { summaries := solved.summaries.insertionSort fun item other => item.id ≤ other.id
        effects := solved.effects.insertionSort fun item other => item.id ≤ other.id
        returnOrigins := solved.returnOrigins.insertionSort fun item other => item.id ≤ other.id
        flows := solved.flows.insertionSort fun item other => item.id ≤ other.id } →
      item ∈ part solved)
    {item : β} (hitem : item ∈ part solution) :
    ∃ variant solution owner owner',
      (p.restrictTo variant).solveVariant emit retain owner = .ok (solution, owner') ∧
        item ∈ part solution := by
  simp only [solveInterprocedural] at h
  cases hfold : p.variants.foldlM (p.solveNext emit retain) (⟨[], [], [], []⟩, owner) with
  | error e =>
      rw [hfold] at h
      cases h
  | ok state =>
      rw [hfold] at h
      cases h
      exact (foldlM_solveNext_mem hpart p.variants hfold (hsorted state.1 item hitem)).resolve_left
        (by simp [hnone])

omit [Fingerprint] in
theorem buildVariant_of_restrictTo {variant id : String} {summary : FunctionSummary}
    (h : (p.restrictTo variant).summaryById id = some summary) : summary.buildVariant = variant := by
  simpa using List.of_mem_filter ((p.restrictTo variant).summaryById_mem h)

/--
If a solve returns a complete summary, nothing is unknown about any summary
that it reaches through the calls of its build variant.
-/
theorem complete_never_overclaims (p : Problem) {σ : Type} (emit : Emitter σ) (retain : Bool)
    (owner : σ) (solution : InterproceduralSolution) (owner' : σ)
    (h : p.solveInterprocedural emit retain owner = .ok (solution, owner'))
    (solved : FunctionSummary) (hsolved : solved ∈ solution.summaries)
    (hcomplete : solved.complete = true) :
    ∃ summary, (p.restrictTo solved.buildVariant).summaryById solved.id = some summary ∧
      ∀ target, Relation.ReflTransGen (p.restrictTo solved.buildVariant).CallsBody summary target →
        (p.restrictTo solved.buildVariant).Exhaustive target := by
  obtain ⟨variant, _, _, _, hvariant, hmem⟩ := mem_solveInterprocedural h
    InterproceduralSolution.summaries (fun _ _ => rfl) rfl
    (fun _ _ => (List.mem_insertionSort _).mp) hsolved
  obtain ⟨publication, hpublication, rfl⟩ := mem_solveVariant hvariant hmem
  obtain ⟨_, _, _, summary, facts, -, -, hsummary, hfacts, rfl⟩ := mem_publications hpublication
  have hvariant : summary.buildVariant = variant := buildVariant_of_restrictTo hsummary
  simp only [solvedSummary] at hcomplete ⊢
  rw [hvariant]
  refine ⟨summary, hsummary, fun target hreach => reachable_exhaustive hsummary ?_ hreach⟩
  refine ⟨facts, hfacts, fun text htext => ?_⟩
  rw [List.isEmpty_iff] at hcomplete
  have hmem := (Reasons.mem_sorted).mpr htext
  rw [hcomplete] at hmem
  simp at hmem

/-! ## A sample: `f` calls `g`, which writes a global -/

omit [Fingerprint]

/-- A fingerprint that spells its values out. -/
@[reducible] def plainFingerprint : Fingerprint where
  digest values := values.foldl (fun spelled value => spelled ++ "," ++ match value with
    | .text text => text
    | .optional text => text.getD "None"
    | .index index => String.ofList (List.replicate (index.getD 0) 'i')
    | .texts texts => texts.foldl (· ++ "." ++ ·) ""
    | .pairs pairs => pairs.foldl (fun spelled pair => spelled ++ "." ++ pair.1) "") ""

/-- A summary as a batch hands it over, before anything is solved. -/
def rawSummary (id symbol : String) (reasons : List String := [])
    (identified : isBlank id = false ∧ isBlank symbol = false ∧ isBlank "graph" = false := by decide)
    (normalized : NormalizedReasons reasons := by first | exact normalizedReasons_nil | decide) :
    FunctionSummary where
  id := id
  functionSymbolId := symbol
  graphId := "graph"
  analysisId := "analysis"
  parameterModes := []
  parameterLocationIds := []
  localComplete := reasons.isEmpty
  localIncompleteReasons := reasons
  complete := reasons.isEmpty
  incompleteReasons := reasons
  recursive := false
  iterationCount := 0
  maxSccIterations := 32
  maxSccSize := 128
  maxSummaryEffects := 1024
  translationUnitId := "tu"
  buildConfigurationId := "cfg"
  identified := identified
  limitsPositive := InterproceduralLimits.standard.positive
  localReasonsNormalized := normalized
  reasonsNormalized := normalized
  localAgrees := rfl
  agrees := rfl

def rawCallsite (id owner : String)
    (identified : isBlank id = false ∧ isBlank owner = false := by decide) :
    SummaryCallSiteProjection :=
  { id := id, ownerSymbolId := owner, targetSetComplete := true, translationUnitId := "tu",
    buildConfigurationId := "cfg", identified := identified }

def rawTarget (id callsite symbol : String) (certainty : CallTargetCertainty)
    (identified : isBlank id = false ∧ isBlank callsite = false ∧ isBlank symbol = false := by
      decide) : SummaryCallTargetProjection :=
  { id := id, callsiteId := callsite, targetSymbolId := symbol, certainty := certainty,
    identified := identified }

/-- A certain write of the global `place`. -/
def rawWrite (id summary place : String)
    (identified : isBlank id = false ∧ isBlank summary = false ∧ isBlank "assignment" = false := by
      decide) : SummaryEffect :=
  { id := id, summaryId := summary, kind := .write, locationKind := .global, certainty := .certain,
    reason := "assignment", locationId := some place, sourceAccessId := some "access",
    translationUnitId := "tu", buildConfigurationId := "cfg", identified := identified,
    provenance := by simp }

def callerBody : FunctionSummary := rawSummary "f" "F"

def calleeBody : FunctionSummary := rawSummary "g" "G"

def sampleCall : SummaryCallSiteProjection := rawCallsite "site" "F"

def sampleTarget : SummaryCallTargetProjection := rawTarget "target" "site" "G" .certain

def sampleProblem : Problem where
  summaries := [callerBody, calleeBody]
  localEffects := [rawWrite "write" "g" "counter"]
  localOrigins := []
  bindings := []
  resultBindings := []
  callsites := [sampleCall]
  targets := [sampleTarget]
  limits := .standard

/-- An emitter that ignores what it is given. -/
def ignore : Emitter Unit := fun _ _ _ _ => .ok ()

/-- What the sample's solve returns of its summaries. -/
theorem sample_summaries : (@solveInterprocedural plainFingerprint sampleProblem Unit ignore true
    ()).toOption.map (fun result => result.1.summaries.map fun solved =>
      (solved.id, solved.complete, solved.buildVariant)) =
    some [("f", true, "default"), ("g", true, "default")] := by
  decide

theorem complete_never_overclaims_sample : ∃ solution solved,
    @solveInterprocedural plainFingerprint sampleProblem Unit ignore true () =
      .ok (solution, ()) ∧ solved ∈ solution.summaries ∧ solved.id = "f" ∧
    ∃ summary, (sampleProblem.restrictTo solved.buildVariant).summaryById solved.id = some summary ∧
      ∀ target, Relation.ReflTransGen (sampleProblem.restrictTo solved.buildVariant).CallsBody
        summary target →
        @Exhaustive plainFingerprint (sampleProblem.restrictTo solved.buildVariant) target := by
  have hsummaries := sample_summaries
  cases hrun : @solveInterprocedural plainFingerprint sampleProblem Unit ignore true () with
  | error e =>
      rw [hrun] at hsummaries
      cases hsummaries
  | ok result =>
      obtain ⟨solution, owner⟩ := result
      simp only [hrun, Except.toOption, Option.map_some, Option.some.injEq] at hsummaries
      obtain ⟨solved, rest, hsolution⟩ : ∃ solved rest, solution.summaries = solved :: rest := by
        cases hlist : solution.summaries with
        | nil => simp [hlist] at hsummaries
        | cons solved rest => exact ⟨solved, rest, rfl⟩
      simp only [hsolution, List.map_cons, List.cons.injEq, Prod.mk.injEq] at hsummaries
      have hmem : solved ∈ solution.summaries := hsolution ▸ List.mem_cons_self
      exact ⟨solution, solved, rfl, hmem, hsummaries.1.1,
        @complete_never_overclaims plainFingerprint sampleProblem Unit ignore true () solution ()
          hrun solved hmem hsummaries.1.2.1⟩

end Problem

end CppContextEngine.Analysis
