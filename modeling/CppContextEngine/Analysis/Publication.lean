import CppContextEngine.Analysis.Invariants

/-!
# What a run publishes

A run that returns has published every summary once, with the facts of the
final environment, and its flows are those that the callers have there.
-/

namespace CppContextEngine.Analysis

open CppContextEngine.Foundation CppContextEngine.Models

/-- One call of the emitter. -/
structure Publication where
  summary : FunctionSummary
  effects : List SummaryEffect
  origins : List SummaryReturnOrigin

variable [Fingerprint] (p : Problem) {σ : Type}

namespace Problem

/-- Hand one publication to the emitter. -/
def deliver (emit : Emitter σ) (owner : σ) (publication : Publication) : Except SolverError σ :=
  emit owner publication.summary publication.effects publication.origins

def publication? (current : Environment) (iterationCount : Nat) (summary : FunctionSummary) :
    Option Publication :=
  current[summary.id]?.map fun facts =>
    ⟨p.solvedSummary summary facts iterationCount, facts.effects, facts.origins⟩

/-- The publications of `component` when the components of `before` are solved. -/
def componentPublications (before : List (List String)) (component : List String) :
    List Publication :=
  let (current, iterationCount) :=
    p.solveMembers (p.members component) (p.environmentAfter before)
  (p.members component).filterMap (p.publication? current iterationCount)

def publicationsFrom (before : List (List String)) : List (List String) → List Publication
  | [] => []
  | component :: after =>
      p.componentPublications before component ++ publicationsFrom (before ++ [component]) after

/-- Everything a run publishes, in order. -/
def publications : List Publication := p.publicationsFrom [] p.components

/-! ## A component -/

/-- What publishing `members` does to a run. -/
structure Published (emit : Emitter σ) (iterationCount : Nat) (members : List FunctionSummary)
    (run next : Run σ) : Prop where
  held : next.held = run.held
  present : ∀ summary ∈ members, ∃ facts, run.held.current[summary.id]? = some facts
  summaries : next.summaries = run.summaries ++
    (members.filterMap (p.publication? run.held.current iterationCount)).map Publication.summary
  delivered : (members.filterMap (p.publication? run.held.current iterationCount)).foldlM
    (deliver emit) run.owner = .ok next.owner
  flows : ∃ recorded, members.mapM (p.callerFlows run.held.current) = .ok recorded ∧
    next.flows = run.flows.put InterproceduralFlow.id recorded.flatten

variable {p} {emit : Emitter σ} {iterationCount : Nat}

theorem publish_ok {run next : Run σ} {summary : FunctionSummary}
    (h : p.publish emit iterationCount run summary = .ok next) :
    ∃ flows facts, p.callerFlows run.held.current summary = .ok flows ∧
      run.held.current[summary.id]? = some facts ∧
      emit run.owner (p.solvedSummary summary facts iterationCount) facts.effects facts.origins =
        .ok next.owner ∧
      next = { run with
        flows := run.flows.put InterproceduralFlow.id flows
        summaries := run.summaries ++ [p.solvedSummary summary facts iterationCount]
        owner := next.owner } := by
  simp only [publish, bind, Except.bind] at h
  split at h
  · cases h
  · rename_i flows hflows
    split at h
    · cases h
    · rename_i facts hfacts
      split at h
      · cases h
      · rename_i owner howner
        cases h
        exact ⟨flows, facts, hflows, hfacts, howner, rfl⟩

theorem published_of_ok {members : List FunctionSummary} : ∀ {run next : Run σ},
    members.foldlM (p.publish emit iterationCount) run = .ok next →
    Published p emit iterationCount members run next := by
  induction members with
  | nil =>
      intro run next h
      cases h
      exact ⟨rfl, by simp, by simp, rfl, [], rfl, rfl⟩
  | cons summary members ih =>
      intro run next h
      rw [List.foldlM_cons] at h
      cases hpublish : p.publish emit iterationCount run summary with
      | error e =>
          rw [hpublish] at h
          cases h
      | ok middle =>
          rw [hpublish] at h
          obtain ⟨flows, facts, hflows, hfacts, hemit, hmiddle⟩ := publish_ok hpublish
          have hrest := ih h
          have hheld : middle.held = run.held := publish_held p hpublish
          have hfirst : p.publication? run.held.current iterationCount summary =
              some ⟨p.solvedSummary summary facts iterationCount, facts.effects,
                facts.origins⟩ := by
            simp [publication?, hfacts]
          constructor
          · exact hrest.held.trans hheld
          · intro other hother
            rcases List.mem_cons.mp hother with rfl | hother
            · exact ⟨facts, hfacts⟩
            · exact hheld ▸ hrest.present other hother
          · rw [hrest.summaries, List.filterMap_cons_some hfirst, hheld, hmiddle]
            simp
          · rw [List.filterMap_cons_some hfirst, List.foldlM_cons, deliver, hemit, ← hheld]
            exact hrest.delivered
          · obtain ⟨recorded, hrecorded, hput⟩ := hrest.flows
            rw [hheld] at hrecorded
            refine ⟨flows :: recorded, ?_, ?_⟩
            · rw [List.mapM_cons, hflows, hrecorded]
              rfl
            · rw [hput, hmiddle, List.flatten_cons, Table.put_append]

theorem solveComponent_ok {run next : Run σ} {component : List String}
    (h : p.solveComponent emit true run component = .ok next) :
    Published p emit (p.solveMembers (p.members component) run.held.current).2
      (p.members component)
      (run.holding { run.held with
        current := (p.solveMembers (p.members component) run.held.current).1 }) next := by
  simp only [solveComponent] at h
  cases hpublish : (p.members component).foldlM (p.publish emit
      (p.solveMembers (p.members component) run.held.current).2) { run with held := { run.held with
        current := (p.solveMembers (p.members component) run.held.current).1 } } with
  | error e =>
      rw [hpublish] at h
      cases h
  | ok middle =>
      rw [hpublish] at h
      cases h
      simpa [Run.holding] using published_of_ok hpublish

/-! ## The whole run -/

/-- Every environment from the callers' own component on shows them the same callees. -/
theorem callerFlows_final {before after : List (List String)} {component : List String}
    (hsplit : p.components = before ++ component :: after) {caller : FunctionSummary}
    (hcaller : caller.id ∈ component) :
    p.callerFlows (p.environmentAfter (before ++ [component])) caller =
      p.callerFlows p.finalEnvironment caller :=
  callerFlows_agree p fun _ hcallee =>
    (p.final_eq_after hsplit (p.callee_component hsplit hcaller hcallee)).symm

omit [Fingerprint] in
theorem foldlM_append_ok {δ ι : Type} {f : δ → ι → Except SolverError δ}
    {first second : List ι} {start middle final : δ} (hfirst : first.foldlM f start = .ok middle)
    (hsecond : second.foldlM f middle = .ok final) :
    (first ++ second).foldlM f start = .ok final := by
  rw [List.foldlM_append, hfirst]
  exact hsecond

omit [Fingerprint] in
theorem mapM_append_ok {ι β : Type} {f : ι → Except SolverError β} {first second : List ι}
    {firstResult secondResult : List β} (hfirst : first.mapM f = .ok firstResult)
    (hsecond : second.mapM f = .ok secondResult) :
    (first ++ second).mapM f = .ok (firstResult ++ secondResult) := by
  rw [List.mapM_append, hfirst, hsecond]
  rfl

/-- All members of `components`, in order. -/
def allMembers (p : Problem) (components : List (List String)) : List FunctionSummary :=
  components.flatMap p.members

/-- What a retained run has done when the components of `after` are solved too. -/
structure Retained (emit : Emitter σ) (before after : List (List String)) (run next : Run σ) :
    Prop where
  current : next.held.current = p.environmentAfter (before ++ after)
  summaries : next.summaries =
    run.summaries ++ (p.publicationsFrom before after).map Publication.summary
  delivered : (p.publicationsFrom before after).foldlM (deliver emit) run.owner = .ok next.owner
  flows : ∃ recorded, (p.allMembers after).mapM (p.callerFlows p.finalEnvironment) = .ok recorded ∧
    next.flows = run.flows.put InterproceduralFlow.id recorded.flatten

theorem retained_of_ok (after : List (List String)) :
    ∀ (before : List (List String)) {run next : Run σ}, p.components = before ++ after →
      run.held.current = p.environmentAfter before →
      after.foldlM (p.solveComponent emit true) run = .ok next →
      Retained (p := p) emit before after run next := by
  induction after with
  | nil =>
      intro before run next _ hcurrent h
      cases h
      exact ⟨by rw [List.append_nil]; exact hcurrent, by simp [publicationsFrom], rfl, [], rfl, rfl⟩
  | cons component after ih =>
      intro before run next hsplit hcurrent h
      rw [List.foldlM_cons] at h
      cases hcomponent : p.solveComponent emit true run component with
      | error e =>
          rw [hcomponent] at h
          cases h
      | ok middle =>
          rw [hcomponent] at h
          have hpublished := solveComponent_ok hcomponent
          have hafter := solveComponent_current p hcomponent
          rw [hcurrent] at hpublished
          rw [hcurrent, ← environmentAfter_append] at hafter
          have hrest := ih (before ++ [component]) (by rw [hsplit, List.append_assoc]; rfl)
            hafter h
          constructor
          · rw [hrest.current, List.append_assoc]
            rfl
          · rw [hrest.summaries, hpublished.summaries, publicationsFrom, List.map_append,
              List.append_assoc]
            rfl
          · exact foldlM_append_ok hpublished.delivered hrest.delivered
          · obtain ⟨recorded, hrecorded, hput⟩ := hpublished.flows
            obtain ⟨recorded', hrecorded', hput'⟩ := hrest.flows
            have hown : (p.members component).mapM (p.callerFlows p.finalEnvironment) =
                .ok recorded := by
              rw [← hrecorded]
              refine mapM_congr fun caller hcaller => ?_
              rw [← callerFlows_final hsplit ((p.mem_members).mp hcaller).1,
                environmentAfter_append]
              rfl
            refine ⟨recorded ++ recorded', ?_, ?_⟩
            · exact mapM_append_ok hown hrecorded'
            · rw [hput', hput, List.flatten_append, Table.put_append]
              rfl

/-- What a retained solve returns. -/
structure Solved (p : Problem) (emit : Emitter σ) (owner : σ)
    (solution : InterproceduralSolution) (owner' : σ) : Prop where
  summaries : solution.summaries = (p.publications.map Publication.summary).insertionSort
    fun item other => item.id ≤ other.id
  delivered : p.publications.foldlM (deliver emit) owner = .ok owner'
  effects : solution.effects = p.finalEnvironment.items.flatMap Facts.effects
  returnOrigins : solution.returnOrigins = p.finalEnvironment.items.flatMap Facts.origins
  flows : ∃ recorded,
    (p.allMembers p.components).mapM (p.callerFlows p.finalEnvironment) = .ok recorded ∧
      solution.flows = (Table.put InterproceduralFlow.id ∅ recorded.flatten).items

theorem solved_of_ok {owner owner' : σ} {solution : InterproceduralSolution}
    (h : p.solveVariant emit true owner = .ok (solution, owner')) :
    Solved p emit owner solution owner' := by
  simp only [solveVariant] at h
  cases hrun : p.components.foldlM (p.solveComponent emit true) (p.initialRun owner) with
  | error e =>
      rw [hrun] at h
      cases h
  | ok run =>
      rw [hrun] at h
      cases h
      have hretained := retained_of_ok p.components [] rfl rfl hrun
      constructor
      · simp only [hretained.summaries]
        rfl
      · exact hretained.delivered
      · simp only [↓reduceIte, hretained.current]
        rfl
      · simp only [↓reduceIte, hretained.current]
        rfl
      · obtain ⟨recorded, hrecorded, hput⟩ := hretained.flows
        exact ⟨recorded, hrecorded, by rw [hput]; rfl⟩

/-! ## Single publications -/

theorem mem_publicationsFrom {publication : Publication} (after : List (List String)) :
    ∀ before : List (List String), publication ∈ p.publicationsFrom before after →
      ∃ earlier component later, before ++ after = earlier ++ component :: later ∧
        publication ∈ p.componentPublications earlier component := by
  induction after with
  | nil => simp [publicationsFrom]
  | cons component after ih =>
      intro before h
      rcases List.mem_append.mp h with h | h
      · exact ⟨before, component, after, rfl, h⟩
      · obtain ⟨earlier, other, later, hsplit, hmem⟩ := ih _ h
        exact ⟨earlier, other, later, by rw [← hsplit, List.append_assoc]; rfl, hmem⟩

/-- A publication carries the facts that its summary has in the final environment. -/
theorem mem_publications {publication : Publication} (h : publication ∈ p.publications) :
    ∃ before component after summary facts, p.components = before ++ component :: after ∧
      summary.id ∈ component ∧ p.summaryById summary.id = some summary ∧
      p.finalEnvironment[summary.id]? = some facts ∧
      publication = ⟨p.solvedSummary summary facts
        (p.solveMembers (p.members component) (p.environmentAfter before)).2,
        facts.effects, facts.origins⟩ := by
  obtain ⟨before, component, after, hsplit, hmem⟩ := mem_publicationsFrom p.components [] h
  obtain ⟨summary, hsummary, hpublication⟩ := List.mem_filterMap.mp hmem
  obtain ⟨facts, hfacts, rfl⟩ := Option.map_eq_some_iff.mp hpublication
  obtain ⟨hid, hown⟩ := (p.mem_members).mp hsummary
  refine ⟨before, component, after, summary, facts, hsplit, hid, hown, ?_, rfl⟩
  rw [p.final_eq_after hsplit (.inl hid), environmentAfter_append]
  exact hfacts

/-! ## Streaming and retaining -/

/-- Every fact is filed under the summary it names. -/
def OwnFacts (id : String) (facts : Facts) : Prop :=
  (∀ effect ∈ facts.effects, effect.summaryId = id) ∧
    ∀ origin ∈ facts.origins, origin.summaryId = id

omit [Fingerprint] in
theorem summaryId_of_localEffectsOf {id : String} {effect : SummaryEffect}
    (h : effect ∈ p.localEffectsOf id) : effect.summaryId = id := by
  rw [localEffectsOf, List.mem_insertionSort] at h
  simpa using List.of_mem_filter h

omit [Fingerprint] in
theorem summaryId_of_localOriginsOf {id : String} {origin : SummaryReturnOrigin}
    (h : origin ∈ p.localOriginsOf id) : origin.summaryId = id := by
  rw [localOriginsOf, List.mem_insertionSort] at h
  simpa using List.of_mem_filter h

theorem summaryId_of_edgeEffects {current : Environment} {caller : FunctionSummary}
    {edge : CallEdge} {effect : SummaryEffect} (h : effect ∈ p.edgeEffects current caller edge) :
    effect.summaryId = caller.id := by
  obtain ⟨source, -, hsource⟩ := List.mem_filterMap.mp h
  obtain ⟨place, -, rfl⟩ := Option.map_eq_some_iff.mp hsource
  rfl

theorem ownFacts_invariant : p.Invariant OwnFacts where
  initial _ _ := ⟨fun _ => summaryId_of_localEffectsOf, fun _ => summaryId_of_localOriginsOf⟩
  transfer current _ caller _ := by
    constructor
    · intro effect heffect
      rcases List.mem_append.mp (p.mem_transfer_effects heffect) with h | h
      · exact summaryId_of_localEffectsOf h
      · obtain ⟨edge, -, h⟩ := List.mem_flatMap.mp h
        exact summaryId_of_edgeEffects h
    · intro origin horigin
      rcases p.mem_transfer_origins horigin with h | ⟨edge, -, h, -⟩
      · exact summaryId_of_localOriginsOf h
      · obtain ⟨source, -, rfl⟩ := List.mem_map.mp h
        rfl
  reasons _ _ _ h := h

/-- A solve that streams returns what a solve that retains does, without the facts. -/
theorem solveVariant_streams (emit : Emitter σ) (owner : σ) :
    p.solveVariant emit false owner =
      (fun result => ({ result.1 with effects := [], returnOrigins := [] }, result.2)) <$>
        p.solveVariant emit true owner := by
  obtain ⟨held, hrun⟩ := foldlM_solveComponent_streams p emit p.components []
    (p.initialRun owner) rfl (streams_initial p)
  have hstart : (p.initialRun owner).holding ⟨p.initialEnvironment, p.remainingCallers⟩ =
      p.initialRun owner := rfl
  rw [hstart] at hrun
  simp only [solveVariant, hrun]
  cases p.components.foldlM (p.solveComponent emit true) (p.initialRun owner) <;> rfl

/-- A publication carries exactly its summary's part of the retained facts. -/
theorem publication_facts {owner owner' : σ} {solution : InterproceduralSolution}
    (h : p.solveVariant emit true owner = .ok (solution, owner')) {publication : Publication}
    (hmem : publication ∈ p.publications) :
    publication.effects =
        solution.effects.filter (fun effect => effect.summaryId = publication.summary.id) ∧
      publication.origins =
        solution.returnOrigins.filter (fun origin => origin.summaryId = publication.summary.id) := by
  have hsolved := solved_of_ok h
  obtain ⟨_, _, _, summary, facts, -, -, -, hfacts, rfl⟩ := mem_publications hmem
  have hown : Holds OwnFacts p.finalEnvironment := ownFacts_invariant.holds_after p.components
  rw [hsolved.effects, hsolved.returnOrigins]
  constructor
  · exact (Table.filter_flatMap_items (fun k v hv => (hown k v hv).1) hfacts).symm
  · exact (Table.filter_flatMap_items (fun k v hv => (hown k v hv).2) hfacts).symm

/--
Streaming equals retaining: the same summaries and flows for every emitter, and
every call of the emitter carries the facts that the retained solution has for
its summary.
-/
theorem streaming_eq_retained (p : Problem) {σ : Type} (emit : Emitter σ) (owner : σ) :
    p.solveVariant emit false owner =
        (fun result => ({ result.1 with effects := [], returnOrigins := [] }, result.2)) <$>
          p.solveVariant emit true owner ∧
      ∀ streamed owner', p.solveVariant emit false owner = .ok (streamed, owner') →
        ∃ retained, p.solveVariant emit true owner = .ok (retained, owner') ∧
          ∃ calls : List Publication, calls.foldlM (deliver emit) owner = .ok owner' ∧
            (calls.map Publication.summary).Perm streamed.summaries ∧
            ∀ call ∈ calls,
              call.effects =
                  retained.effects.filter (fun effect => effect.summaryId = call.summary.id) ∧
                call.origins =
                  retained.returnOrigins.filter
                    (fun origin => origin.summaryId = call.summary.id) := by
  refine ⟨solveVariant_streams emit owner, fun streamed owner' h => ?_⟩
  rw [solveVariant_streams] at h
  cases hretained : p.solveVariant emit true owner with
  | error e =>
      rw [hretained] at h
      cases h
  | ok result =>
      obtain ⟨retained, owner''⟩ := result
      rw [hretained] at h
      cases h
      have hsolved := solved_of_ok hretained
      refine ⟨retained, rfl, p.publications, hsolved.delivered, ?_, fun call hcall =>
        publication_facts hretained hcall⟩
      simp only [hsolved.summaries]
      exact (List.perm_insertionSort _ _).symm

end Problem

end CppContextEngine.Analysis
