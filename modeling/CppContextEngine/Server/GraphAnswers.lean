import CppContextEngine.Server.GraphPaths

/-!
# Complete graph answers

What an answer that is not truncated promises, and when the tool keeps the
promise.  The direct path reads the evidence alone, so stored edges and the
limit of a node are lost on it; the general path misses what no probe shows
and what has no symbol in its build.
-/

namespace CppContextEngine.Server

open CppContextEngine.Foundation CppContextEngine.Models CppContextEngine.Storage
open CppContextEngine.Storage.GraphStore

/-! ## The promise -/

/-- The result is the evidence of a call. -/
def GraphEdgeResult.ShowsCall (shown : GraphEdgeResult) (row : CallEvidence) : Prop :=
  shown.edge = (callEvidenceResult row).edge ∧ shown.callsiteId = some row.site.id

namespace GraphQuery

variable (query : GraphQuery)

/-- The limits hold, and without truncation every edge and every call is shown. -/
structure Honest (query : GraphQuery) (answer : GraphResult) : Prop where
  results : answer.edges.length ≤ query.request.maxResults
  fanout : (answer.edges.filter fun shown => AtOrigin query.originId shown.edge).length ≤
    query.request.perNodeFanout
  edges : answer.truncated = false → ∀ edge ∈ query.within none,
    (∃ shown ∈ answer.edges, shown.edge = edge) ∨
      edge.relation = .calls ∧ ∃ direction ∈ query.request.callDirections,
        ∃ row ∈ query.evidence direction, IndexedEdge.pair (callEvidenceResult row).edge =
          IndexedEdge.pair edge ∧ ∃ shown ∈ answer.edges, shown.ShowsCall row
  calls : answer.truncated = false → Selected query.request.filter .calls →
    ∀ direction ∈ query.request.callDirections, ∀ row ∈ query.evidence direction,
      ∃ shown ∈ answer.edges, shown.ShowsCall row

/-! ## When it is kept -/

/-- The evidence that the general path reads. -/
def calls : List IndexedEdge :=
  (readDirections query.request).flatMap query.callEdges

/-- What the general path has to show when no limit cuts anything but a node's rows. -/
def candidates : List IndexedEdge :=
  legacyEdges (query.within (some query.request.perNodeFanout)) query.calls ++ query.calls

/-- Nothing that the general path reads exceeds a limit. -/
structure Fits : Prop where
  evidence : ∀ direction ∈ readDirections query.request,
    (query.evidence direction).length ≤ query.request.maxResults
  edges : (query.within (some query.request.perNodeFanout)).length ≤ query.request.maxResults
  rows : query.request.perNodeFanout ≤
      (query.within (some query.request.perNodeFanout)).length →
    (query.within (some (query.request.perNodeFanout + 1))).map IndexedEdge.id ⊆
      (query.within (some query.request.perNodeFanout)).map IndexedEdge.id
  origin : (query.candidates.filter fun edge => AtOrigin query.originId edge).length ≤
    query.request.perNodeFanout
  results : query.candidates.length ≤ query.request.maxResults

/-- Evidence of the same caller, target and build replaces the edge. -/
def Replaced (edge : IndexedEdge) : Prop :=
  edge.relation = .calls ∧ ∃ call ∈ query.calls, IndexedEdge.pair call = IndexedEdge.pair edge

/-- Every edge and every call is listed and has its symbols. -/
structure Complete : Prop where
  listed : query.request.direction = .both → query.request.depth ≠ 1 →
    ∀ edge ∈ query.within none,
      edge ∈ query.within (some query.request.perNodeFanout) ∨ query.Replaced edge
  edges : ∀ edge ∈ query.within none, query.Resolves edge
  calls : ∀ edge ∈ query.calls, query.Resolves edge
  asked : Selected query.request.filter .calls → readDirections query.request = [] →
    ∀ direction ∈ query.request.callDirections, query.evidence direction = []

/-- The calls that the direct path has to show. -/
def directCalls : List IndexedEdge :=
  ((query.callEdges query.request.direction).take query.request.maxResults).filter
    fun edge => query.Resolves edge

/-- The evidence alone answers within the limit of a node. -/
structure Direct : Prop where
  fanout : query.directCalls.length ≤ query.request.perNodeFanout
  calls : (query.callEdges query.request.direction).length ≤ query.request.maxResults →
    ∀ edge ∈ query.callEdges query.request.direction, query.Resolves edge
  edges : (query.callEdges query.request.direction).length ≤ query.request.maxResults →
    ∀ edge ∈ query.within none, ∃ call ∈ query.callEdges query.request.direction,
      IndexedEdge.pair call = IndexedEdge.pair edge

/-- The path that the request takes does not hide anything. -/
def Open : Prop :=
  if AsksCalls query.request ∧ query.directCalls ≠ [] then query.Direct
  else query.Fits → query.Complete

variable {query}

/-! ## The limits -/

theorem length_filter_filterMap_le {α β : Type} {f : α → Option β} {p : α → Bool}
    {q : β → Bool} (items : List α)
    (h : ∀ item ∈ items, ∀ made, f item = some made → q made = true → p item = true) :
    ((items.filterMap f).filter q).length ≤ (items.filter p).length := by
  induction items with
  | nil => simp
  | cons item items ih =>
      have hrest := ih fun other hother => h other (List.mem_cons_of_mem _ hother)
      rw [List.filterMap_cons, List.filter_cons]
      cases hmade : f item with
      | none =>
          simp only
          split
          · exact hrest.trans (Nat.le_succ _)
          · exact hrest
      | some made =>
          simp only
          rw [List.filter_cons]
          split
          · rename_i hq
            rw [if_pos (h item List.mem_cons_self made hmade hq)]
            exact Nat.succ_le_succ hrest
          · split
            · exact hrest.trans (Nat.le_succ _)
            · exact hrest

theorem length_shown_le : query.shown.length ≤ query.request.maxResults :=
  (List.length_filterMap_le _ _).trans (List.length_take_le _ _)

/-- The general path keeps the limit of the origin, also when it is truncated. -/
theorem origin_shown_le :
    (query.shown.filter fun shown => AtOrigin query.originId shown.edge).length ≤
      query.request.perNodeFanout := by
  have hanswer : (query.shown.filter fun shown => AtOrigin query.originId shown.edge).length ≤
      ((query.answer.take query.request.maxResults).filter
        fun edge => AtOrigin query.originId edge).length := by
    refine length_filter_filterMap_le _ fun edge hedge shown hshown horigin => ?_
    obtain ⟨hsame, -⟩ := render_edge (known_of_answer (List.mem_of_mem_take hedge)) hshown
    rwa [hsame] at horigin
  have hcut : ((query.answer.take query.request.maxResults).filter
        fun edge => AtOrigin query.originId edge).length ≤
      (query.answer.filter fun edge => AtOrigin query.originId edge).length :=
    ((List.take_sublist _ _).filter _).length_le
  have hdeeper : (deeperEdges query.details query.originId query.primary).filter
      (fun edge => AtOrigin query.originId edge) = [] := by
    simp [deeperEdges]
  have horigin : (query.answer.filter fun edge => AtOrigin query.originId edge).length ≤
      query.request.perNodeFanout := by
    unfold answer answerEdges
    rw [((sortBy_perm _ _).filter _).length_eq, List.filter_append, hdeeper, List.nil_append]
    exact (List.length_filter_le _ _).trans (List.length_take_le _ _)
  exact hanswer.trans (hcut.trans horigin)

/-! ## The flag -/

theorem limited_eq {perNodeLimit : Nat}
    (h : (query.limited perNodeLimit).length ≤ query.request.maxResults ∨
      (query.within (some perNodeLimit)).length ≤ query.request.maxResults) :
    query.limited perNodeLimit = query.within (some perNodeLimit) :=
  traverse_under (h.imp Nat.lt_succ_of_le Nat.lt_succ_of_le)

theorem length_le_of_ids {edges others : List IndexedEdge}
    (hnodup : (edges.map IndexedEdge.id).Nodup)
    (h : edges.map IndexedEdge.id ⊆ others.map IndexedEdge.id) : edges.length ≤ others.length := by
  simpa using (hnodup.subperm h).length_le

/-- The traversal is not cut when one more edge in all and one more row to each node show none. -/
theorem cut_iff : query.cut = false ↔
    (query.within (some query.request.perNodeFanout)).length ≤ query.request.maxResults ∧
      (query.request.perNodeFanout ≤
          (query.within (some query.request.perNodeFanout)).length →
        (query.within (some (query.request.perNodeFanout + 1))).map IndexedEdge.id ⊆
          (query.within (some query.request.perNodeFanout)).map IndexedEdge.id) := by
  have hcut : query.cut = false ↔ query.primary.length ≤ query.request.maxResults ∧
      (query.request.perNodeFanout ≤ query.primary.length →
        (query.limited (query.request.perNodeFanout + 1)).map IndexedEdge.id ⊆
          query.primary.map IndexedEdge.id) := by
    have hids : (query.limited (query.request.perNodeFanout + 1)).map IndexedEdge.id ⊆
          query.primary.map IndexedEdge.id ↔
        ∀ edge ∈ query.limited (query.request.perNodeFanout + 1),
          edge.id ∈ query.primary.map IndexedEdge.id := by
      simp only [List.subset_def, List.forall_mem_map]
    rw [hids]
    simp [cut, imp_iff_not_or]
  rw [hcut]
  constructor
  · rintro ⟨hlength, hprobe⟩
    have hprimary : query.primary = query.within (some query.request.perNodeFanout) :=
      limited_eq (.inl hlength)
    rw [hprimary] at hlength hprobe
    refine ⟨hlength, fun hmany => ?_⟩
    have hshort := length_le_of_ids (traverse_nodup _ _) (hprobe hmany)
    rw [← limited_eq (.inl (hshort.trans hlength))]
    exact hprobe hmany
  · rintro ⟨hlength, hprobe⟩
    have hprimary : query.primary = query.within (some query.request.perNodeFanout) :=
      limited_eq (.inr hlength)
    rw [hprimary]
    refine ⟨hlength, fun hmany => ?_⟩
    have hshort := length_le_of_ids (traverse_nodup _ _) (hprobe hmany)
    rw [limited_eq (.inr (hshort.trans hlength))]
    exact hprobe hmany

theorem detailEdges_eq (h : ∀ direction ∈ readDirections query.request,
    (query.evidence direction).length ≤ query.request.maxResults) :
    query.details.edges = query.calls := by
  rw [details_edges, calls]
  refine List.flatMap_congr fun direction hdirection => ?_
  rw [List.take_of_length_le]
  simpa [callEdges] using h direction hdirection

theorem mem_calls {edge : IndexedEdge} : edge ∈ query.calls ↔
    ∃ direction ∈ readDirections query.request, ∃ row ∈ query.evidence direction,
      (callEvidenceResult row).edge = edge := by
  simp [calls, callEdges]

theorem atOrigin_of_calls {edge : IndexedEdge} (h : edge ∈ query.calls) :
    AtOrigin query.originId edge := by
  obtain ⟨direction, -, hedge⟩ := List.mem_flatMap.mp h
  exact atOrigin_of_callEdge hedge

/-- The candidates are the deeper edges and the edges of the origin. -/
theorem candidates_perm (hprimary : query.primary =
    query.within (some query.request.perNodeFanout)) (hdetails : query.details.edges = query.calls) :
    (deeperEdges query.details query.originId query.primary ++
      originEdges query.details query.originId query.primary).Perm query.candidates := by
  have hcalls : query.calls.filter (fun edge => ¬ AtOrigin query.originId edge) = [] := by
    rw [List.filter_eq_nil_iff]
    intro edge hedge
    simpa using atOrigin_of_calls hedge
  have hdeeper : deeperEdges query.details query.originId query.primary =
      query.candidates.filter fun edge => ¬ AtOrigin query.originId edge := by
    unfold deeperEdges candidates
    rw [List.filter_append, hcalls, List.append_nil, hprimary, hdetails]
  have horigin : (originEdges query.details query.originId query.primary).Perm
      (query.candidates.filter fun edge => AtOrigin query.originId edge) := by
    unfold originEdges candidates
    rw [hprimary, hdetails]
    exact sortBy_perm _ _
  rw [hdeeper]
  refine (List.Perm.append_left _ horigin).trans (List.perm_append_comm.trans ?_)
  have hsplit := List.filter_append_perm (fun edge => decide (AtOrigin query.originId edge))
    query.candidates
  simpa using hsplit

theorem truncated_iff : query.truncated = false ↔ query.Fits := by
  have hflag : query.truncated = false ↔ query.cut = false ∧ query.details.truncated = false ∧
      (originEdges query.details query.originId query.primary).length ≤
        query.request.perNodeFanout ∧ query.answer.length ≤ query.request.maxResults := by
    simp [truncated, and_assoc]
  have hlengths (hprimary : query.primary = query.within (some query.request.perNodeFanout))
      (hdetails : query.details.edges = query.calls) :
      (originEdges query.details query.originId query.primary).length =
          (query.candidates.filter fun edge => AtOrigin query.originId edge).length ∧
        ((originEdges query.details query.originId query.primary).length ≤
            query.request.perNodeFanout →
          query.answer.length = query.candidates.length) := by
    constructor
    · rw [originEdges, length_sortBy, hprimary, hdetails, candidates]
    · intro hfew
      rw [answer, answerEdges, length_sortBy, List.take_of_length_le hfew]
      exact (candidates_perm hprimary hdetails).length_eq
  rw [hflag, cut_iff, details_truncated]
  constructor
  · rintro ⟨⟨hedges, hrows⟩, hevidence, horigin, hresults⟩
    obtain ⟨hsame, hall⟩ := hlengths (limited_eq (.inr hedges)) (detailEdges_eq hevidence)
    exact ⟨hevidence, hedges, hrows, hsame ▸ horigin, hall horigin ▸ hresults⟩
  · intro h
    obtain ⟨hsame, hall⟩ := hlengths (limited_eq (.inr h.edges)) (detailEdges_eq h.evidence)
    have horigin := hsame.symm ▸ h.origin
    exact ⟨⟨h.edges, h.rows⟩, h.evidence, horigin, (hall horigin).symm ▸ h.results⟩

/-! ## The general path -/

theorem Fits.primary_eq (h : query.Fits) :
    query.primary = query.within (some query.request.perNodeFanout) :=
  limited_eq (.inr h.edges)

theorem Fits.mem_answer (h : query.Fits) {edge : IndexedEdge} :
    edge ∈ query.answer ↔ edge ∈ query.candidates := by
  have hdetails := detailEdges_eq h.evidence
  have hperm := candidates_perm h.primary_eq hdetails
  have horigin : (originEdges query.details query.originId query.primary).length ≤
      query.request.perNodeFanout := by
    rw [originEdges, length_sortBy, h.primary_eq, hdetails]
    exact h.origin
  rw [answer, answerEdges, mem_sortBy, List.take_of_length_le horigin, hperm.mem_iff]

theorem Fits.shown_eq (h : query.Fits) :
    query.shown = query.answer.filterMap fun edge =>
      query.render edge (query.details.of edge) := by
  have hflag := truncated_iff.mpr h
  have hlength : query.answer.length ≤ query.request.maxResults := by
    simp only [truncated, Bool.or_eq_false_iff, decide_eq_false_iff_not, Nat.not_lt] at hflag
    exact hflag.2
  rw [shown, List.take_of_length_le hlength]

/-- A candidate with its symbols is shown, with the call known of it. -/
theorem Fits.shows (h : query.Fits) {edge : IndexedEdge} (hedge : edge ∈ query.candidates)
    (hresolves : query.Resolves edge) :
    ∃ shown ∈ query.shown, shown.edge = edge ∧
      shown.callsiteId = (query.details.of edge).map CallEvidenceResult.callsiteId := by
  have hanswer := h.mem_answer.mpr hedge
  obtain ⟨shown, hshown⟩ := render_of_resolves (query.details.of edge) hresolves
  refine ⟨shown, ?_, render_edge (known_of_answer hanswer) hshown⟩
  rw [h.shown_eq]
  exact List.mem_filterMap.mpr ⟨edge, hanswer, hshown⟩

/-- What is shown is a candidate with its symbols. -/
theorem Fits.of_shown (h : query.Fits) {shown : GraphEdgeResult} (hshown : shown ∈ query.shown) :
    shown.edge ∈ query.candidates ∧ query.Resolves shown.edge ∧
      shown.callsiteId =
        (query.details.of shown.edge).map CallEvidenceResult.callsiteId := by
  rw [h.shown_eq] at hshown
  obtain ⟨edge, hedge, hrender⟩ := List.mem_filterMap.mp hshown
  obtain ⟨hsame, hcallsite⟩ := render_edge (known_of_answer hedge) hrender
  rw [hsame]
  exact ⟨h.mem_answer.mp hedge, resolves_of_render hrender,
    hcallsite⟩

theorem Fits.shows_call (h : query.Fits) {direction : GraphDirection}
    (hdirection : direction ∈ readDirections query.request) {row : CallEvidence}
    (hrow : row ∈ query.evidence direction)
    (hresolves : query.Resolves (callEvidenceResult row).edge) :
    ∃ shown ∈ query.shown, shown.ShowsCall row := by
  have hcall : (callEvidenceResult row).edge ∈ query.calls :=
    mem_calls.mpr ⟨direction, hdirection, row, hrow, rfl⟩
  obtain ⟨shown, hshown, hsame, hcallsite⟩ :=
    h.shows (List.mem_append_right _ hcall) hresolves
  have hread : row ∈ (query.evidence direction).take query.request.maxResults := by
    rwa [List.take_of_length_le (h.evidence direction hdirection)]
  rw [details_of hdirection hread] at hcallsite
  exact ⟨shown, hshown, hsame, hcallsite⟩

/-- A call is shown only when the evidence has been read. -/
theorem Fits.read_of_shows (h : query.Fits) {shown : GraphEdgeResult}
    (hshown : shown ∈ query.shown) {row : CallEvidence} (hrow : shown.ShowsCall row) :
    readDirections query.request ≠ [] := by
  intro hnone
  obtain ⟨-, -, hcallsite⟩ := h.of_shown hshown
  rw [details_of_none hnone, hrow.2] at hcallsite
  cases hcallsite

theorem read_eq (h : readDirections query.request ≠ []) :
    readDirections query.request = query.request.callDirections ∧
      Selected query.request.filter .calls := by
  unfold readDirections at h ⊢
  split at h
  · rename_i hasked
    rw [if_pos hasked]
    refine ⟨rfl, hasked.imp_left fun hnone => ?_⟩
    simp [GraphRequest.filter, hnone]
  · exact absurd rfl h

theorem Resolves.of_pair {edge other : IndexedEdge} (h : query.Resolves edge)
    (hpair : IndexedEdge.pair edge = IndexedEdge.pair other) : query.Resolves other := by
  simp only [IndexedEdge.pair, Prod.mk.injEq] at hpair
  obtain ⟨hsource, htarget, hbuild⟩ := hpair
  unfold Resolves at h ⊢
  rwa [← hsource, ← htarget, ← hbuild]

/-- In one direction or at one level the probe sees whatever the limit of a node hides. -/
theorem Fits.within_eq (h : query.Fits)
    (hshape : query.request.direction ≠ .both ∨ query.request.depth = 1) :
    query.within (some query.request.perNodeFanout) = query.within none := by
  by_cases hmany : query.request.perNodeFanout ≤
      (query.within (some query.request.perNodeFanout)).length
  · exact traverse_probe hshape (h.rows hmany)
  · exact traverse_few (Nat.not_le.mp hmany)

theorem Fits.listed (h : query.Fits) (hcomplete : query.Complete) {edge : IndexedEdge}
    (hedge : edge ∈ query.within none) :
    edge ∈ query.within (some query.request.perNodeFanout) ∨ query.Replaced edge := by
  by_cases hshape : query.request.direction ≠ .both ∨ query.request.depth = 1
  · rw [h.within_eq hshape]
    exact .inl hedge
  · simp only [not_or, ne_eq, not_not] at hshape
    exact hcomplete.listed hshape.1 hshape.2 edge hedge

theorem Fits.honest_of_complete (h : query.Fits) (hcomplete : query.Complete) :
    (∀ edge ∈ query.within none, (∃ shown ∈ query.shown, shown.edge = edge) ∨
      edge.relation = .calls ∧ ∃ direction ∈ query.request.callDirections,
        ∃ row ∈ query.evidence direction, IndexedEdge.pair (callEvidenceResult row).edge =
          IndexedEdge.pair edge ∧ ∃ shown ∈ query.shown, shown.ShowsCall row) ∧
      (Selected query.request.filter .calls → ∀ direction ∈ query.request.callDirections,
        ∀ row ∈ query.evidence direction, ∃ shown ∈ query.shown, shown.ShowsCall row) := by
  have hcall {direction : GraphDirection} (hdirection : direction ∈ readDirections query.request)
      {row : CallEvidence} (hrow : row ∈ query.evidence direction) :
      ∃ shown ∈ query.shown, shown.ShowsCall row :=
    h.shows_call hdirection hrow
      (hcomplete.calls _ (mem_calls.mpr ⟨direction, hdirection, row, hrow, rfl⟩))
  constructor
  · intro edge hedge
    by_cases hreplaced : query.Replaced edge
    · obtain ⟨hrelation, call, hmem, hpair⟩ := hreplaced
      obtain ⟨direction, hdirection, row, hrow, rfl⟩ := mem_calls.mp hmem
      exact .inr ⟨hrelation, direction, mem_readDirections hdirection, row, hrow, hpair,
        hcall hdirection hrow⟩
    · left
      have hlisted := (h.listed hcomplete hedge).resolve_right hreplaced
      have hlegacy : edge ∈ query.candidates := by
        refine List.mem_append_left _ (List.mem_filter.mpr ⟨hlisted, ?_⟩)
        simp only [Replaced, not_and, not_exists] at hreplaced
        simp only [decide_eq_true_eq]
        refine Decidable.or_iff_not_imp_left.mpr fun hrelation hpair => ?_
        obtain ⟨call, hmem, hsame⟩ := List.mem_map.mp hpair
        exact hreplaced (not_not.mp hrelation) call hmem hsame
      obtain ⟨shown, hshown, hsame, -⟩ := h.shows hlegacy (hcomplete.edges edge hedge)
      exact ⟨shown, hshown, hsame⟩
  · intro hselected direction hdirection row hrow
    by_cases hread : readDirections query.request = []
    · rw [hcomplete.asked hselected hread direction hdirection] at hrow
      cases hrow
    · exact hcall ((read_eq hread).1 ▸ hdirection) hrow

theorem Fits.complete_of_honest (h : query.Fits)
    (hedges : ∀ edge ∈ query.within none, (∃ shown ∈ query.shown, shown.edge = edge) ∨
      edge.relation = .calls ∧ ∃ direction ∈ query.request.callDirections,
        ∃ row ∈ query.evidence direction, IndexedEdge.pair (callEvidenceResult row).edge =
          IndexedEdge.pair edge ∧ ∃ shown ∈ query.shown, shown.ShowsCall row)
    (hcalls : Selected query.request.filter .calls →
      ∀ direction ∈ query.request.callDirections, ∀ row ∈ query.evidence direction,
        ∃ shown ∈ query.shown, shown.ShowsCall row) : query.Complete where
  listed := by
    intro _ _ edge hedge
    rcases hedges edge hedge with
      ⟨shown, hshown, rfl⟩ | ⟨hrelation, direction, hdirection, row, hrow, hpair, shown, hshown,
        hshows⟩
    · rcases List.mem_append.mp (h.of_shown hshown).1 with hlegacy | hcall
      · exact .inl (List.mem_of_mem_filter hlegacy)
      · obtain ⟨-, -, row, -, hsame⟩ := mem_calls.mp hcall
        exact .inr ⟨hsame ▸ rfl, _, hcall, rfl⟩
    · have hread := read_eq (h.read_of_shows hshown hshows)
      exact .inr ⟨hrelation, _, mem_calls.mpr ⟨direction, hread.1.symm ▸ hdirection, row, hrow,
        rfl⟩, hpair⟩
  edges := by
    intro edge hedge
    rcases hedges edge hedge with
      ⟨shown, hshown, rfl⟩ | ⟨-, direction, -, row, -, hpair, shown, hshown, hshows⟩
    · exact (h.of_shown hshown).2.1
    · exact Resolves.of_pair (hshows.1 ▸ (h.of_shown hshown).2.1) hpair
  calls := by
    intro edge hedge
    obtain ⟨direction, hdirection, row, hrow, rfl⟩ := mem_calls.mp hedge
    have hread := read_eq (List.ne_nil_of_mem hdirection)
    obtain ⟨shown, hshown, hshows⟩ :=
      hcalls hread.2 direction (mem_readDirections hdirection) row hrow
    exact hshows.1 ▸ (h.of_shown hshown).2.1
  asked := by
    intro hselected hnone direction hdirection
    refine List.eq_nil_iff_forall_not_mem.mpr fun row hrow => ?_
    obtain ⟨shown, hshown, hshows⟩ := hcalls hselected direction hdirection row hrow
    exact h.read_of_shows hshown hshows hnone

/-- The general path is honest when what fits its limits is complete. -/
theorem honest_general_iff (origin : CodeSymbol) :
    query.Honest (graphResult query.request query.scope origin query.shown query.truncated) ↔
      (query.Fits → query.Complete) := by
  constructor
  · intro h hfits
    have hflag := truncated_iff.mpr hfits
    exact hfits.complete_of_honest (h.edges hflag) (h.calls hflag)
  · intro h
    refine ⟨length_shown_le, origin_shown_le, fun hflag => ?_, fun hflag => ?_⟩
    · have hfits := truncated_iff.mp hflag
      exact (hfits.honest_of_complete (h hfits)).1
    · have hfits := truncated_iff.mp hflag
      exact (hfits.honest_of_complete (h hfits)).2

/-! ## The direct path -/

variable (query) in
/-- The direct path shows the calls that have their symbols, in their order. -/
theorem shownCalls_edges : query.shownCalls.map GraphEdgeResult.edge = query.directCalls := by
  have hknown : ∀ row ∈ (query.evidence query.request.direction).take query.request.maxResults,
      query.Known (callEvidenceResult row).edge :=
    fun row hrow => known_of_evidence (List.mem_of_mem_take hrow)
  unfold shownCalls bounded directCalls callEdges
  simp only
  rw [← List.map_take]
  generalize (query.evidence query.request.direction).take query.request.maxResults = rows
    at hknown
  induction rows with
  | nil => rfl
  | cons row rows ih =>
      have hrest := ih fun other hother => hknown other (List.mem_cons_of_mem _ hother)
      rw [List.map_cons, List.map_cons, List.filterMap_cons, List.filter_cons]
      cases hrender : query.render (callEvidenceResult row).edge (some (callEvidenceResult row)) with
      | none =>
          have hresolves : ¬ query.Resolves (callEvidenceResult row).edge := by
            intro h
            obtain ⟨shown, hshown⟩ := render_of_resolves (some (callEvidenceResult row)) h
            simp [hrender] at hshown
          simpa [hresolves] using hrest
      | some shown =>
          have hresolves : query.Resolves (callEvidenceResult row).edge :=
            resolves_of_render hrender
          have hsame := (render_edge (hknown row List.mem_cons_self) hrender).1
          simpa [hresolves, hsame] using hrest

theorem mem_shownCalls {shown : GraphEdgeResult} (h : shown ∈ query.shownCalls) :
    ∃ row ∈ query.evidence query.request.direction, shown.ShowsCall row ∧
      query.Resolves (callEvidenceResult row).edge := by
  obtain ⟨call, hcall, hrender⟩ := List.mem_filterMap.mp h
  obtain ⟨row, hrow, rfl⟩ := List.mem_map.mp hcall
  have hmem := List.mem_of_mem_take hrow
  exact ⟨row, hmem, render_edge (known_of_evidence hmem) hrender,
    resolves_of_render hrender⟩

theorem shows_directCall (hfew : (query.evidence query.request.direction).length ≤
    query.request.maxResults) {row : CallEvidence}
    (hrow : row ∈ query.evidence query.request.direction)
    (hresolves : query.Resolves (callEvidenceResult row).edge) :
    ∃ shown ∈ query.shownCalls, shown.ShowsCall row := by
  obtain ⟨shown, hshown⟩ := render_of_resolves (some (callEvidenceResult row)) hresolves
  refine ⟨shown, List.mem_filterMap.mpr ⟨callEvidenceResult row, ?_, hshown⟩,
    render_edge (known_of_evidence hrow) hshown⟩
  refine List.mem_map_of_mem ?_
  rwa [List.take_of_length_le hfew]

theorem relation_of_within (hasks : AsksCalls query.request) {edge : IndexedEdge}
    (h : edge ∈ query.within none) : edge.relation = .calls := by
  rcases Walk.mem_found_run _ h with hnone | ⟨node, hnode⟩
  · cases hnone
  · obtain ⟨row, -, -, -, -, hselected, rfl⟩ := mem_endpointEdges.mp (mem_limitRows hnode)
    simpa [Selected, GraphRequest.filter, hasks.1] using hselected

/-- The direct path is honest when the evidence alone answers within the limit of a node. -/
theorem honest_direct_iff (hasks : AsksCalls query.request) (origin : CodeSymbol) :
    query.Honest (graphResult query.request query.scope origin query.shownCalls
      (query.bounded query.request.direction).truncated) ↔ query.Direct := by
  have hlength : query.shownCalls.length = query.directCalls.length := by
    rw [← shownCalls_edges, List.length_map]
  have hflag : (query.bounded query.request.direction).truncated = false ↔
      (query.callEdges query.request.direction).length ≤ query.request.maxResults := by
    simp [bounded, callEdges]
  have hdirections : query.request.callDirections = [query.request.direction] := by
    rw [GraphRequest.callDirections, if_neg hasks.2.2]
  have hselected : Selected query.request.filter .calls := by
    simp [Selected, GraphRequest.filter, hasks.1]
  have hcalls : (∀ direction ∈ query.request.callDirections, ∀ row ∈ query.evidence direction,
      ∃ shown ∈ query.shownCalls, shown.ShowsCall row) →
      ∀ edge ∈ query.callEdges query.request.direction, query.Resolves edge := by
    intro h edge hedge
    obtain ⟨row, hrow, rfl⟩ := List.mem_map.mp hedge
    obtain ⟨shown, hshown, hsame, -⟩ := h _ (by simp [hdirections]) row hrow
    obtain ⟨row', -, ⟨hsame', -⟩, hresolves⟩ := mem_shownCalls hshown
    rwa [← hsame, hsame']
  constructor
  · intro h
    refine ⟨?_, fun hfew => hcalls (h.calls (hflag.mpr hfew) hselected), ?_⟩
    · have hfanout := h.fanout
      rw [List.filter_eq_self.mpr] at hfanout
      · exact hlength ▸ hfanout
      · intro shown hshown
        obtain ⟨row, hrow, ⟨hsame, -⟩, -⟩ := mem_shownCalls hshown
        rw [decide_eq_true_eq, hsame]
        exact atOrigin_of_callEdge (List.mem_map_of_mem hrow)
    · intro hfew edge hedge
      rcases h.edges (hflag.mpr hfew) edge hedge with
        ⟨shown, hshown, rfl⟩ | ⟨-, direction, hdirection, row, hrow, hpair, -⟩
      · obtain ⟨row, hrow, ⟨hsame, -⟩, -⟩ := mem_shownCalls hshown
        exact ⟨_, List.mem_map_of_mem hrow, congrArg IndexedEdge.pair hsame.symm⟩
      · rw [hdirections, List.mem_singleton] at hdirection
        exact ⟨_, List.mem_map_of_mem (hdirection ▸ hrow), hpair⟩
  · intro h
    have hshows (hfew : (query.callEdges query.request.direction).length ≤
        query.request.maxResults) {row : CallEvidence}
        (hrow : row ∈ query.evidence query.request.direction) :
        ∃ shown ∈ query.shownCalls, shown.ShowsCall row :=
      shows_directCall (by simpa [callEdges] using hfew) hrow
        (h.calls hfew _ (List.mem_map_of_mem hrow))
    refine ⟨?_, ?_, fun hopen edge hedge => ?_, fun hopen _ direction hdirection row hrow => ?_⟩
    · refine (hlength.trans_le (List.length_filter_le _ _)).trans (List.length_take_le _ _)
    · exact (List.length_filter_le _ _).trans (hlength.trans_le h.fanout)
    · have hfew := hflag.mp hopen
      obtain ⟨call, hcall, hpair⟩ := h.edges hfew edge hedge
      obtain ⟨row, hrow, rfl⟩ := List.mem_map.mp hcall
      exact .inr ⟨relation_of_within hasks hedge, query.request.direction, by simp [hdirections],
        row, hrow, hpair, hshows hfew hrow⟩
    · rw [hdirections, List.mem_singleton] at hdirection
      exact hshows (hflag.mp hopen) (hdirection ▸ hrow)

theorem honest_iff_open (origin : CodeSymbol) :
    query.Honest (if AsksCalls query.request ∧ query.shownCalls ≠ [] then
      graphResult query.request query.scope origin query.shownCalls
        (query.bounded query.request.direction).truncated
    else graphResult query.request query.scope origin query.shown query.truncated) ↔
      query.Open := by
  have hnil : query.shownCalls ≠ [] ↔ query.directCalls ≠ [] := by
    rw [← shownCalls_edges, ne_eq, ne_eq, List.map_eq_nil_iff]
  unfold Open
  by_cases hdirect : AsksCalls query.request ∧ query.shownCalls ≠ []
  · rw [if_pos hdirect, if_pos ⟨hdirect.1, hnil.mp hdirect.2⟩]
    exact honest_direct_iff hdirect.1 origin
  · rw [if_neg hdirect, if_neg fun h => hdirect ⟨h.1, hnil.mpr h.2⟩]
    exact honest_general_iff origin

end GraphQuery

/-! ## The tool -/

/-- The promise about an answer of the tool. -/
def HonestAnswer (store : GraphStore) (root : Option String) (scope : BuildScope)
    (request : GraphRequest) (answer : GraphResult) : Prop :=
  ∀ projectId, store.projectIdOf root = .ok projectId →
    GraphQuery.Honest ⟨store, projectId, scope, request, answer.symbol.text.id.val⟩ answer

theorem graphTool_ok {query : GraphQuery} {root : Option String} {origin : CodeSymbol}
    (h : query.Reaches root origin) {answer : GraphResult} :
    graphTool query.store root query.scope query.request = .ok answer ↔
      answer = if AsksCalls query.request ∧ query.shownCalls ≠ [] then
        graphResult query.request query.scope origin query.shownCalls
          (query.bounded query.request.direction).truncated
      else graphResult query.request query.scope origin query.shown query.truncated := by
  unfold graphTool
  rw [query.graphRuntime_ok h]
  simp only [Except.ok.injEq, eq_comm]

/-- A request that does not reach a symbol of the scope has no answer. -/
theorem reaches_of_ok {store : GraphStore} {root : Option String} {scope : BuildScope}
    {request : GraphRequest} {answer : GraphResult}
    (h : graphTool store root scope request = .ok answer) :
    ∃ projectId origin, store.projectIdOf root = .ok projectId ∧
      store.findSymbol projectId scope.variants request.symbolId = some origin := by
  unfold graphTool graphRuntime getSymbol at h
  cases hproject : store.projectIdOf root with
  | error error => cases error <;> simp [hproject, internal, bind, Except.bind] at h
  | ok projectId =>
      cases hfound : store.findSymbol projectId scope.variants request.symbolId with
      | none => simp [hproject, hfound, internal, bind, Except.bind] at h
      | some origin => exact ⟨projectId, origin, rfl, hfound⟩

/-- The tool keeps its promise exactly where the path it takes hides nothing. -/
theorem graphTool_honest_iff (store : GraphStore) (root : Option String) (scope : BuildScope)
    (request : GraphRequest) :
    (∀ answer, graphTool store root scope request = .ok answer →
      HonestAnswer store root scope request answer) ↔
    ∀ projectId origin, store.projectIdOf root = .ok projectId →
      store.findSymbol projectId scope.variants request.symbolId = some origin →
      GraphQuery.Open ⟨store, projectId, scope, request, origin.text.id.val⟩ := by
  have hsymbol (query : GraphQuery) (origin : CodeSymbol) :
      (if AsksCalls query.request ∧ query.shownCalls ≠ [] then
        graphResult query.request query.scope origin query.shownCalls
          (query.bounded query.request.direction).truncated
      else graphResult query.request query.scope origin query.shown
        query.truncated).symbol = origin := by
    split <;> rfl
  constructor
  · intro h projectId origin hproject hfound
    let query : GraphQuery := ⟨store, projectId, scope, request, origin.text.id.val⟩
    have hreaches : query.Reaches root origin := ⟨hproject, hfound, rfl⟩
    have hhonest := h _ ((graphTool_ok hreaches).mpr rfl) projectId hproject
    rw [hsymbol] at hhonest
    exact (query.honest_iff_open origin).mp hhonest
  · intro h answer hanswer projectId hproject
    obtain ⟨projectId', origin, hproject', hfound⟩ := reaches_of_ok hanswer
    obtain rfl : projectId' = projectId := by simpa [hproject] using hproject'.symm
    let query : GraphQuery := ⟨store, projectId', scope, request, origin.text.id.val⟩
    have hreaches : query.Reaches root origin := ⟨hproject, hfound, rfl⟩
    obtain rfl := (graphTool_ok hreaches).mp hanswer
    rw [hsymbol]
    exact (query.honest_iff_open origin).mpr (h projectId' origin hproject hfound)

/-! ### A callee that only the index knows -/

def calleeText (id : Identifier) : SymbolText where
  id := id
  qualifiedName := id
  kind := .function
  span := .start "a.cpp"

def calleeVariant (id : Identifier) (variantId : String) : SnapshotRow where
  projectId := 1
  id := variantId
  symbolId := id.val
  buildVariant := "default"
  buildConfigurationId := "config"
  translationUnitId := "unit"
  isDefinition := true
  text := calleeText id

/-- `main` calls `direct` by evidence of one backend and `legacy` by an edge of the other. -/
def twoBackends : GraphStore where
  projectRoot := none
  buildScope := BuildScope.default
  projects := [⟨1, "/project"⟩]
  symbols := [⟨1, calleeText ⟨"main", by decide⟩, "config"⟩,
    ⟨1, calleeText ⟨"direct", by decide⟩, "config"⟩, ⟨1, calleeText ⟨"legacy", by decide⟩, "config"⟩]
  variants := [calleeVariant ⟨"main", by decide⟩ "variant_1",
    calleeVariant ⟨"direct", by decide⟩ "variant_2", calleeVariant ⟨"legacy", by decide⟩ "variant_3"]
  variantKeys := by decide
  edges := [{
    sourceId := ⟨"main", by decide⟩
    targetId := ⟨"legacy", by decide⟩
    relation := .calls
    id := "edge"
    translationUnitId := "unit"
    buildConfigurationId := "config"
    projectId := 1 }]
  callsites := [{
    projectId := 1
    id := "callsite"
    ownerSymbolId := ⟨"main", by decide⟩
    dispatchKind := .direct
    expansionSpan := .start "a.cpp"
    targetSetComplete := true
    unresolvedReason := ""
    translationUnitId := "unit"
    buildConfigurationId := "config"
    buildVariant := "default" }]
  callTargets := [{
    projectId := 1
    id := "target"
    callsiteId := "callsite"
    targetSymbolId := ⟨"direct", by decide⟩
    certainty := .certain
    confidence := 1
    confidenceReason := "static"
    derivation := "compiler"
    translationUnitId := "unit"
    buildConfigurationId := "config"
    buildVariant := "default" }]
  edgeKeys := by decide
  callsiteKeys := by decide
  callTargetKeys := by decide
  snapshotIds := by decide
  variantIds := by decide
  variantSymbols := by decide
  edgeSymbols := by decide
  ownerSymbols := by decide
  targetSymbols := by decide

def calleesOfMain : GraphRequest where
  symbolId := "main"
  direction := .outgoing
  relations := some [.calls]
  depth := 1
  maxResults := 20
  perNodeFanout := 20
  depthRange := by decide
  resultRange := by decide
  fanoutRange := by decide

/-- The callees of `main` are said to be complete without the one that is only an edge. -/
theorem callees_hide_legacy : ¬ ∀ (store : GraphStore) (root : Option String)
    (scope : BuildScope) (request : GraphRequest) (answer : GraphResult),
    graphTool store root scope request = .ok answer →
      HonestAnswer store root scope request answer := by
  intro h
  have hgiven : (match graphTool twoBackends none BuildScope.default calleesOfMain with
      | .ok answer => some (answer.symbol.text.id.val, answer.truncated,
          answer.edges.map GraphEdgeResult.edgeId)
      | .error _ => none) = some ("main", false, ["target"]) := by decide
  cases hanswer : graphTool twoBackends none BuildScope.default calleesOfMain with
  | error failure => simp [hanswer] at hgiven
  | ok answer =>
      simp only [hanswer, Option.some.injEq, Prod.mk.injEq] at hgiven
      obtain ⟨horigin, hflag, hshown⟩ := hgiven
      have hhonest := h _ _ _ _ answer hanswer 1 (by decide)
      rw [horigin] at hhonest
      have hedge : (⟨⟨⟨"main", by decide⟩, ⟨"legacy", by decide⟩, .calls, "default"⟩, "edge",
          "unit", "config"⟩ : IndexedEdge) ∈ GraphQuery.within
            ⟨twoBackends, 1, BuildScope.default, calleesOfMain, "main"⟩ none := by decide
      rcases hhonest.edges hflag _ hedge with
        ⟨shown, hmem, hsame⟩ | ⟨-, direction, hdirection, row, hrow, hpair, -⟩
      · have hid : shown.edgeId ∈ ["target"] := hshown ▸ List.mem_map_of_mem hmem
        rw [show shown.edgeId = "edge" from congrArg IndexedEdge.id hsame] at hid
        exact absurd hid (by decide)
      · obtain rfl : direction = .outgoing := by
          simpa [GraphRequest.callDirections, calleesOfMain] using hdirection
        have hrows : ∀ row ∈ GraphQuery.evidence
            ⟨twoBackends, 1, BuildScope.default, calleesOfMain, "main"⟩ .outgoing,
            (callEvidenceResult row).targetSymbolId.val ≠ "legacy" := by decide
        exact hrows row hrow (congrArg (fun pair => pair.2.1.val) hpair)

end CppContextEngine.Server
