import CppContextEngine.Server.GraphTool

/-!
# The paths of the graph tool

A request that reaches its origin takes the direct or the general path; what
each reads, what it knows of an edge and what it shows, without the failures.
-/

namespace CppContextEngine.Server

open CppContextEngine.Foundation CppContextEngine.Models CppContextEngine.Storage
open CppContextEngine.Storage.GraphStore

/-- The edge that a result shows, read from its symbols. -/
def GraphEdgeResult.edge (shown : GraphEdgeResult) : IndexedEdge where
  sourceId := shown.source.text.id
  targetId := shown.target.text.id
  relation := shown.relation
  buildVariant := shown.buildVariant
  id := shown.edgeId
  translationUnitId := shown.translationUnitId
  buildConfigurationId := shown.buildConfigurationId

/-- A request that has reached an origin in a project. -/
structure GraphQuery where
  store : GraphStore
  projectId : Nat
  scope : BuildScope
  request : GraphRequest
  originId : String

namespace GraphQuery

variable (query : GraphQuery)

/-- The traversal of the request with a limit for each node only. -/
def within (perNodeLimit : Option Nat) : List IndexedEdge :=
  query.store.traverse query.projectId query.scope.variants query.request.filter
    query.request.depth query.request.direction none perNodeLimit query.originId

/-- All evidence of one direction. -/
def evidence (direction : GraphDirection) : List CallEvidence :=
  query.store.evidenceRows query.projectId query.scope.variants query.originId
    (direction = .incoming)

/-- Both ends of the edge have a symbol in its build. -/
def Resolves (edge : IndexedEdge) : Prop :=
  (query.store.findSymbol query.projectId [edge.buildVariant] edge.sourceId.val).isSome ∧
    (query.store.findSymbol query.projectId [edge.buildVariant] edge.targetId.val).isSome

instance (edge : IndexedEdge) : Decidable (query.Resolves edge) :=
  inferInstanceAs (Decidable (_ ∧ _))

def callEdges (direction : GraphDirection) : List IndexedEdge :=
  (query.evidence direction).map fun row => (callEvidenceResult row).edge

/-! ## The two paths without failures -/

/-- The evidence of one direction as `calls` returns it. -/
def bounded (direction : GraphDirection) : BoundedResult CallEvidenceResult where
  items := ((query.evidence direction).take query.request.maxResults).map callEvidenceResult
  truncated := query.request.maxResults < (query.evidence direction).length

def readAll (directions : List GraphDirection) (details : CallDetails) : CallDetails :=
  directions.foldl (fun details direction => details.addAll (query.bounded direction)) details

def details : CallDetails :=
  query.readAll (readDirections query.request) CallDetails.none

/-- The traversal with the limit of the tool for the whole answer. -/
def limited (perNodeLimit : Nat) : List IndexedEdge :=
  query.store.traverse query.projectId query.scope.variants query.request.filter
    query.request.depth query.request.direction (some (query.request.maxResults + 1))
    (some perNodeLimit) query.originId

def primary : List IndexedEdge := query.limited query.request.perNodeFanout

/-- The primary query, or the probe after it, has shown that there is more. -/
def cut : Bool :=
  decide (query.request.maxResults < query.primary.length) ||
    (decide (query.request.perNodeFanout ≤ query.primary.length) &&
      (query.limited (query.request.perNodeFanout + 1)).any
        fun edge => edge.id ∉ query.primary.map IndexedEdge.id)

def render (edge : IndexedEdge) (detail : Option CallEvidenceResult) :
    Option GraphEdgeResult :=
  (query.store.findSymbol query.projectId [edge.buildVariant] edge.sourceId.val).bind
    fun source =>
      (query.store.findSymbol query.projectId [edge.buildVariant] edge.targetId.val).map
        (edgeResult edge detail source)

def answer : List IndexedEdge :=
  answerEdges query.request query.details query.originId query.primary

def truncated : Bool :=
  query.cut || query.details.truncated ||
    decide (query.request.perNodeFanout <
      (originEdges query.details query.originId query.primary).length) ||
    decide (query.request.maxResults < query.answer.length)

/-- The edges of the general path. -/
def shown : List GraphEdgeResult :=
  (query.answer.take query.request.maxResults).filterMap fun edge =>
    query.render edge (query.details.of edge)

/-- The edges of the direct path. -/
def shownCalls : List GraphEdgeResult :=
  (query.bounded query.request.direction).items.filterMap fun call =>
    query.render call.edge (some call)

/-- The project is the one of `root`, and `origin` is the symbol that the request names. -/
structure Reaches (root : Option String) (origin : CodeSymbol) : Prop where
  project : query.store.projectIdOf root = .ok query.projectId
  found : query.store.findSymbol query.projectId query.scope.variants
    query.request.symbolId = some origin
  id : origin.text.id.val = query.originId

variable {query} {root : Option String} {origin : CodeSymbol}

theorem requireSymbol_ok (h : query.Reaches root origin) :
    requireSymbol query.store root query.scope query.originId = .ok query.originId := by
  obtain ⟨hcanonical, found, hfound⟩ := findSymbol_again h.found
  rw [h.id] at hcanonical hfound
  unfold requireSymbol
  rw [getSymbol_ok h.project, hfound]
  exact congrArg Except.ok (findSymbol_id hcanonical hfound)

theorem calls_ok (h : query.Reaches root origin) {direction : GraphDirection}
    (hdirection : direction ≠ .both) :
    Server.calls query.store root query.scope query.originId direction
      query.request.maxResults = .ok (query.bounded direction) := by
  have hrange := query.request.resultRange
  have hcount (n : Nat) : query.request.maxResults < min (query.request.maxResults + 1) n ↔
      query.request.maxResults < n := by omega
  unfold Server.calls
  rw [if_neg hdirection, requireSymbol_ok h]
  simp only [callEvidence, h.project, bind, Except.bind]
  rw [if_neg (by omega)]
  simp only [bounded, evidence, List.take_take, List.length_take, hcount, Except.ok.injEq,
    BoundedResult.mk.injEq, Nat.min_eq_left (Nat.le_succ _), true_and]
  exact decide_eq_decide.mpr Iff.rfl

theorem mem_readDirections {direction : GraphDirection}
    (h : direction ∈ readDirections query.request) :
    direction ∈ query.request.callDirections := by
  unfold readDirections at h
  split at h
  · exact h
  · cases h

theorem ne_both_of_mem {direction : GraphDirection}
    (h : direction ∈ query.request.callDirections) : direction ≠ .both := by
  unfold GraphRequest.callDirections at h
  rintro rfl
  split at h
  · simp at h
  · rename_i hboth
    exact hboth (List.mem_singleton.mp h).symm

theorem callDetails_ok (h : query.Reaches root origin) :
    callDetails query.store root query.scope query.request query.originId =
      .ok query.details := by
  have hall : ∀ direction ∈ readDirections query.request, direction ≠ .both :=
    fun direction hdirection => ne_both_of_mem (mem_readDirections hdirection)
  unfold callDetails details readAll
  generalize CallDetails.none = start
  generalize readDirections query.request = directions at hall
  induction directions generalizing start with
  | nil => rfl
  | cons direction directions ih =>
      rw [List.foldlM_cons, calls_ok h (hall direction List.mem_cons_self), List.foldl_cons,
        ← ih _ fun other hother => hall other (List.mem_cons_of_mem _ hother)]
      rfl

theorem neighbors_ok (h : query.Reaches root origin) {perNodeLimit : Nat}
    (hlimit : 1 ≤ perNodeLimit) :
    query.store.neighbors query.originId query.request.filter query.request.depth
        query.request.direction (some (query.request.maxResults + 1)) (some perNodeLimit) root
        query.scope.variants = .ok (query.limited perNodeLimit) := by
  have hdepth := query.request.depthRange
  unfold neighbors
  rw [if_neg (by simp; omega), h.project]
  rfl

theorem boundedEdges_ok (h : query.Reaches root origin) :
    boundedEdges query.store root query.scope query.request query.originId =
      .ok (query.primary, query.cut) := by
  have hfanout := query.request.fanoutRange
  unfold boundedEdges
  rw [neighbors_ok h hfanout.1, neighbors_ok h (Nat.le_add_left 1 _)]
  simp only [bind, Except.bind, cut, primary]
  by_cases hmore : query.request.maxResults <
      (query.limited query.request.perNodeFanout).length
  · simp [hmore]
  · by_cases hprobe : query.request.perNodeFanout ≤
        (query.limited query.request.perNodeFanout).length
    · simp [hmore, hprobe]
    · simp [hmore, hprobe]

theorem renderEdge_ok (h : query.Reaches root origin) (edge : IndexedEdge)
    (detail : Option CallEvidenceResult) :
    renderEdge query.store root edge detail = .ok (query.render edge detail) := by
  unfold renderEdge render
  rw [getSymbol_ok h.project, getSymbol_ok h.project]
  simp only [bind, Except.bind]
  cases query.store.findSymbol query.projectId [edge.buildVariant] edge.sourceId.val with
  | none => rfl
  | some source =>
      cases query.store.findSymbol query.projectId [edge.buildVariant] edge.targetId.val with
      | none => rfl
      | some target => rfl

theorem filterMapM_ok {α β ε : Type} {f : α → Except ε (Option β)} {g : α → Option β}
    (hf : ∀ item, f item = .ok (g item)) (items : List α) :
    items.filterMapM f = .ok (items.filterMap g) := by
  induction items with
  | nil => rfl
  | cons item items ih =>
      rw [List.filterMapM_cons, hf, ih, List.filterMap_cons]
      cases g item <;> rfl

theorem navigate_ok (h : query.Reaches root origin) :
    navigate query.store root query.scope query.request origin =
      .ok (graphResult query.request query.scope origin query.shown query.truncated) := by
  unfold navigate renderEdges
  simp only [h.id, boundedEdges_ok h, callDetails_ok h, bind, Except.bind]
  rw [filterMapM_ok fun edge => renderEdge_ok h edge _]
  rfl

theorem directCalls_ok (h : query.Reaches root origin) (hasks : AsksCalls query.request) :
    Server.directCalls query.store root query.scope query.request query.originId =
      .ok (query.shownCalls, (query.bounded query.request.direction).truncated) := by
  unfold Server.directCalls
  rw [calls_ok h hasks.2.2]
  simp only [bind, Except.bind]
  rw [filterMapM_ok fun call : CallEvidenceResult => renderEdge_ok h call.edge (some call)]
  rfl

/-- The answer of a request that reaches its origin. -/
theorem graphRuntime_ok (h : query.Reaches root origin) :
    graphRuntime query.store root query.scope query.request =
      .ok (if AsksCalls query.request ∧ query.shownCalls ≠ [] then
        graphResult query.request query.scope origin query.shownCalls
          (query.bounded query.request.direction).truncated
      else graphResult query.request query.scope origin query.shown query.truncated) := by
  unfold graphRuntime
  rw [getSymbol_ok h.project, h.found]
  simp only [internal, bind, Except.bind, h.id, navigate_ok h]
  by_cases hasks : AsksCalls query.request
  · rw [if_pos hasks, directCalls_ok h hasks]
    simp only [hasks, true_and]
    split <;> rfl
  · simp [hasks]

/-! ## The evidence read -/

theorem foldl_add (items : List CallEvidenceResult) : ∀ start : CallDetails,
    (items.foldl CallDetails.add start).edges =
        start.edges ++ items.map CallEvidenceResult.edge ∧
      (items.foldl CallDetails.add start).truncated = start.truncated ∧
      ∀ id, (items.foldl CallDetails.add start).byId id =
        (lastBy CallEvidenceResult.targetEvidenceId id items).or (start.byId id) := by
  induction items with
  | nil => simp [lastBy]
  | cons call items ih =>
      intro start
      obtain ⟨hedges, htruncated, hbyId⟩ := ih (start.add call)
      rw [List.foldl_cons]
      refine ⟨?_, htruncated, fun id => ?_⟩
      · rw [hedges]
        simp [CallDetails.add]
      rw [hbyId, lastBy_cons, Option.or_assoc]
      congr 1
      by_cases hid : call.targetEvidenceId = id
      · simp [CallDetails.add, ← hid]
      · simp [CallDetails.add, hid, Function.update_of_ne (Ne.symm hid)]

theorem readAll_spec (directions : List GraphDirection) : ∀ start : CallDetails,
    (query.readAll directions start).edges = start.edges ++ (directions.flatMap
        fun direction => (query.callEdges direction).take query.request.maxResults) ∧
      (query.readAll directions start).truncated =
        (start.truncated || directions.any fun direction =>
          (query.bounded direction).truncated) ∧
      ∀ id, (query.readAll directions start).byId id =
        (lastBy CallEvidenceResult.targetEvidenceId id
          (directions.flatMap fun direction => (query.bounded direction).items)).or
            (start.byId id) := by
  unfold readAll
  induction directions with
  | nil => simp [lastBy]
  | cons direction directions ih =>
      intro start
      obtain ⟨hedges, htruncated, hbyId⟩ := ih (start.addAll (query.bounded direction))
      obtain ⟨hedges', htruncated', hbyId'⟩ := foldl_add (query.bounded direction).items
        { start with truncated := start.truncated || (query.bounded direction).truncated }
      have hcalls : (query.bounded direction).items.map CallEvidenceResult.edge =
          (query.callEdges direction).take query.request.maxResults := by
        simp [bounded, callEdges, ← List.map_take]
      rw [List.foldl_cons]
      refine ⟨?_, ?_, fun id => ?_⟩
      · rw [hedges, CallDetails.addAll, hedges', hcalls, List.flatMap_cons, List.append_assoc]
      · rw [htruncated, CallDetails.addAll, htruncated', List.any_cons, Bool.or_assoc]
      · rw [hbyId, CallDetails.addAll, hbyId', List.flatMap_cons, lastBy_append,
          Option.or_assoc]

variable (query)

theorem details_edges : query.details.edges =
    (readDirections query.request).flatMap fun direction =>
      (query.callEdges direction).take query.request.maxResults :=
  (readAll_spec _ _).1

theorem details_truncated : query.details.truncated = false ↔
    ∀ direction ∈ readDirections query.request,
      (query.evidence direction).length ≤ query.request.maxResults := by
  rw [details, (readAll_spec _ _).2.1]
  simp [CallDetails.none, bounded]

variable {query}

/-- A row that was read is what the answer knows of its edge. -/
theorem details_of {direction : GraphDirection} (hdirection : direction ∈ readDirections query.request)
    {row : CallEvidence}
    (hrow : row ∈ (query.evidence direction).take query.request.maxResults) :
    query.details.of (callEvidenceResult row).edge = some (callEvidenceResult row) := by
  have hread : callEvidenceResult row ∈ (readDirections query.request).flatMap
      fun direction => (query.bounded direction).items :=
    List.mem_flatMap.mpr ⟨direction, hdirection, List.mem_map_of_mem hrow⟩
  obtain ⟨call, hcall⟩ := Option.isSome_iff_exists.mp
    ((lastBy_isSome_iff CallEvidenceResult.targetEvidenceId).mpr
      ⟨callEvidenceResult row, hread, rfl⟩)
  obtain ⟨other, hother, hmem⟩ := List.mem_flatMap.mp (mem_of_lastBy _ hcall)
  obtain ⟨row', hrow', rfl⟩ := List.mem_map.mp hmem
  have hid : row'.target.id = row.target.id :=
    lastBy_key CallEvidenceResult.targetEvidenceId hcall
  obtain rfl := evidence_unique (List.mem_of_mem_take hrow') (List.mem_of_mem_take hrow) hid
  have hbyId : query.details.byId row'.target.id = some (callEvidenceResult row') := by
    rw [details, (readAll_spec _ _).2.2]
    change (lastBy _ (callEvidenceResult row').targetEvidenceId _).or _ = _
    rw [hcall, Option.some_or]
  change (query.details.byId row'.target.id).or _ = _
  rw [hbyId, Option.some_or]

theorem details_of_none (hnone : readDirections query.request = []) (edge : IndexedEdge) :
    query.details.of edge = none := by
  simp [details, readAll, hnone, CallDetails.of, CallDetails.none]

/-! ## Rendering -/

/-- The ends of the edge are symbols of the project. -/
def Known (query : GraphQuery) (edge : IndexedEdge) : Prop :=
  Canonical query.store query.projectId edge.sourceId.val ∧
    Canonical query.store query.projectId edge.targetId.val

theorem render_isSome {edge : IndexedEdge} {detail : Option CallEvidenceResult} :
    (query.render edge detail).isSome ↔ query.Resolves edge := by
  unfold render Resolves
  cases query.store.findSymbol query.projectId [edge.buildVariant] edge.sourceId.val <;> simp

theorem render_of_resolves {edge : IndexedEdge} (detail : Option CallEvidenceResult)
    (h : query.Resolves edge) : ∃ shown, query.render edge detail = some shown :=
  Option.isSome_iff_exists.mp (render_isSome.mpr h)

theorem resolves_of_render {edge : IndexedEdge} {detail : Option CallEvidenceResult}
    {shown : GraphEdgeResult} (h : query.render edge detail = some shown) :
    query.Resolves edge :=
  render_isSome.mp (Option.isSome_iff_exists.mpr ⟨shown, h⟩)

theorem render_edge {edge : IndexedEdge} {detail : Option CallEvidenceResult}
    {shown : GraphEdgeResult} (hknown : query.Known edge)
    (h : query.render edge detail = some shown) :
    shown.edge = edge ∧ shown.callsiteId = detail.map CallEvidenceResult.callsiteId := by
  unfold render at h
  obtain ⟨source, hsource, h⟩ := Option.bind_eq_some_iff.mp h
  obtain ⟨target, htarget, rfl⟩ := Option.map_eq_some_iff.mp h
  have hsourceId : source.text.id = edge.sourceId := Subtype.ext (findSymbol_id hknown.1 hsource)
  have htargetId : target.text.id = edge.targetId := Subtype.ext (findSymbol_id hknown.2 htarget)
  simp [edgeResult, GraphEdgeResult.edge, hsourceId, htargetId]

theorem known_of_traverse {depth : Nat} {direction : GraphDirection}
    {relations : List GraphRelation} {maxEdges perNodeLimit : Option Nat} {edge : IndexedEdge}
    (h : edge ∈ query.store.traverse query.projectId query.scope.variants relations depth
      direction maxEdges perNodeLimit query.originId) : query.Known edge := by
  rcases Walk.mem_found_run _ h with hnone | ⟨node, hnode⟩
  · cases hnone
  · obtain ⟨row, hrow, hproject, -, -, -, rfl⟩ := mem_endpointEdges.mp (mem_limitRows hnode)
    obtain ⟨source, hsource, hsourceProject, hsourceId⟩ :=
      query.store.edgeSymbols row hrow row.sourceId (by simp)
    obtain ⟨target, htarget, htargetProject, htargetId⟩ :=
      query.store.edgeSymbols row hrow row.targetId (by simp)
    exact ⟨⟨source, hsource, hsourceProject.trans hproject, congrArg Subtype.val hsourceId⟩,
      ⟨target, htarget, htargetProject.trans hproject, congrArg Subtype.val htargetId⟩⟩

theorem known_of_evidence {direction : GraphDirection} {row : CallEvidence}
    (h : row ∈ query.evidence direction) : query.Known (callEvidenceResult row).edge := by
  obtain ⟨hsite, htarget, hproject, -, hsiteProject, -, -⟩ := mem_evidenceRows.mp h
  obtain ⟨owner, howner, hownerProject, hownerId⟩ := query.store.ownerSymbols _ hsite
  obtain ⟨target, htarget, htargetProject, htargetId⟩ := query.store.targetSymbols _ htarget
  exact ⟨⟨owner, howner, hownerProject.trans hsiteProject, congrArg Subtype.val hownerId⟩,
    ⟨target, htarget, htargetProject.trans (hproject.trans hsiteProject),
      congrArg Subtype.val htargetId⟩⟩

theorem known_of_callEdge {direction : GraphDirection} {edge : IndexedEdge}
    (h : edge ∈ query.callEdges direction) : query.Known edge := by
  obtain ⟨row, hrow, rfl⟩ := List.mem_map.mp h
  exact known_of_evidence hrow

/-- Every call read is one of the origin. -/
theorem atOrigin_of_callEdge {direction : GraphDirection} {edge : IndexedEdge}
    (h : edge ∈ query.callEdges direction) : AtOrigin query.originId edge := by
  obtain ⟨row, hrow, rfl⟩ := List.mem_map.mp h
  obtain ⟨-, -, -, -, -, hendpoint, -⟩ := mem_evidenceRows.mp hrow
  unfold CallEvidence.endpoint at hendpoint
  split at hendpoint
  · exact .inr hendpoint.symm
  · exact .inl hendpoint.symm

theorem mem_detailEdges {edge : IndexedEdge} (h : edge ∈ query.details.edges) :
    ∃ direction ∈ readDirections query.request, edge ∈ query.callEdges direction := by
  rw [details_edges] at h
  obtain ⟨direction, hdirection, hedge⟩ := List.mem_flatMap.mp h
  exact ⟨direction, hdirection, List.mem_of_mem_take hedge⟩

theorem mem_answer {edge : IndexedEdge} (h : edge ∈ query.answer) :
    edge ∈ legacyEdges query.primary query.details.edges ∨ edge ∈ query.details.edges := by
  unfold answer answerEdges at h
  rw [mem_sortBy, List.mem_append] at h
  rcases h with h | h
  · exact .inl (List.mem_of_mem_filter h)
  · have hedge := List.mem_of_mem_take h
    rw [originEdges, mem_sortBy] at hedge
    exact List.mem_append.mp (List.mem_of_mem_filter hedge)

theorem known_of_answer {edge : IndexedEdge} (h : edge ∈ query.answer) : query.Known edge := by
  rcases mem_answer h with h | h
  · exact known_of_traverse (List.mem_of_mem_filter h)
  · obtain ⟨direction, -, hedge⟩ := mem_detailEdges h
    exact known_of_callEdge hedge

/-- The traversal that the promise speaks of is `neighbors` without its limits. -/
theorem neighbors_unlimited (h : query.Reaches root origin) :
    query.store.neighbors query.originId query.request.filter query.request.depth
        query.request.direction none none root query.scope.variants =
      .ok (query.within none) := by
  have hdepth := query.request.depthRange
  unfold neighbors
  rw [if_neg (by simp; omega), h.project]
  rfl

end GraphQuery

end CppContextEngine.Server
