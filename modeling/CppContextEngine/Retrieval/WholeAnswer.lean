import CppContextEngine.Retrieval.Candidates

/-!
# Whole answers

A bundle without the truncated flag is the whole answer exactly when the limit
on fused candidates loses nothing: what that limit cuts is not reported.
-/

namespace CppContextEngine.Retrieval

open CppContextEngine.Foundation CppContextEngine.Models

namespace HybridRetriever

/-! ## Ranking -/

section Ranking

variable [RankingLibrary] {r : HybridRetriever} {query : String}

/-- Ranking moves candidates and changes their scores only. -/
theorem map_rerank_perm {β : Type} (view : Candidate → β)
    (hview : ∀ (candidate : Candidate) (score : Rat),
      view { candidate with hit := { candidate.hit with score := score } } = view candidate)
    (candidates : List Candidate) (updateScores : Bool) :
    ((r.rerank query candidates updateScores).map view).Perm (candidates.map view) := by
  unfold rerank
  simp only [List.map_map]
  have hsame : ∀ entry : Rat × Candidate, (view ∘ fun entry : Rat × Candidate =>
      if updateScores then { entry.2 with hit := { entry.2.hit with score := entry.1 } }
      else entry.2) entry = view entry.2 := by
    intro entry
    simp only [Function.comp_apply]
    split
    · exact hview entry.2 entry.1
    · rfl
  rw [List.map_congr_left fun entry _ => hsame entry]
  refine ((sortBy_perm _ _).map _).trans ?_
  simp [Function.comp_def]

theorem keys_rerank_perm (candidates : List Candidate) (updateScores : Bool) :
    ((r.rerank query candidates updateScores).map Candidate.key).Perm
      (candidates.map Candidate.key) :=
  map_rerank_perm Candidate.key (fun _ _ => rfl) candidates updateScores

/-- Where a candidate stands among the others. -/
def place (candidate : Candidate) : String × Bool × Option String :=
  (candidate.key, isRoot candidate, candidate.parentId)

omit [RankingLibrary] in
theorem Rooted.of_places {candidates others : List Candidate}
    (hplaces : ∀ spot ∈ candidates.map place, spot ∈ others.map place) {key : String}
    (h : Rooted candidates key) : Rooted others key := by
  have hmove : ∀ candidate ∈ candidates, ∃ other ∈ others, other.key = candidate.key ∧
      isRoot other = isRoot candidate ∧ other.parentId = candidate.parentId := by
    intro candidate hmem
    obtain ⟨other, hother, hspot⟩ :=
      List.mem_map.mp (hplaces _ (List.mem_map_of_mem hmem))
    simp only [place, Prod.mk.injEq] at hspot
    exact ⟨other, hother, hspot.1, hspot.2.1, hspot.2.2⟩
  obtain ⟨first, hfirst, hpath⟩ := h
  have hnext : ∀ parent child, child ∈ childKeys candidates parent →
      child ∈ childKeys others parent := by
    intro parent child hchild
    obtain ⟨candidate, hmem, hisRoot, hparent, rfl⟩ := (mem_childKeys candidates).mp hchild
    obtain ⟨other, hother, hkey, hsame, habove⟩ := hmove candidate hmem
    exact (mem_childKeys others).mpr
      ⟨other, hother, hsame.trans hisRoot, habove.trans hparent, hkey⟩
  refine ⟨first, ?_, Relation.ReflTransGen.mono hnext _ _ hpath⟩
  obtain ⟨root, hroot, rfl⟩ := List.mem_map.mp hfirst
  obtain ⟨hmem, hisRoot⟩ := List.mem_filter.mp hroot
  obtain ⟨other, hother, hkey, hsame, -⟩ := hmove root hmem
  rw [← hkey]
  exact List.mem_map_of_mem (List.mem_filter.mpr ⟨hother, hsame.trans hisRoot⟩)

theorem rooted_rerank {candidates : List Candidate} {updateScores : Bool}
    (h : ∀ candidate ∈ candidates, Rooted candidates candidate.key) :
    ∀ candidate ∈ r.rerank query candidates updateScores,
      Rooted (r.rerank query candidates updateScores) candidate.key := by
  intro candidate hmem
  have hplaces := @map_rerank_perm _ r query _ place (fun _ _ => rfl) candidates updateScores
  obtain ⟨other, hother, hkey⟩ := List.mem_map.mp
    ((keys_rerank_perm candidates updateScores).mem_iff.mp (List.mem_map_of_mem hmem))
  rw [← hkey]
  exact Rooted.of_places (fun spot hspot => hplaces.mem_iff.mpr hspot) (h other hother)

end Ranking

/-! ## Seeds -/

section Seeds

variable [RankingLibrary] {r : HybridRetriever} {query : String} {candidates : List Candidate}

omit [RankingLibrary] in
theorem key_markSeed (candidate : Candidate) : (markSeed candidate).key = candidate.key := rfl

theorem keys_seeded :
    (r.seeded query candidates).2.map Candidate.key = candidates.map Candidate.key := by
  unfold seeded
  rw [List.map_map]
  refine List.map_congr_left fun candidate _ => ?_
  simp only [Function.comp_apply]
  split
  · exact key_markSeed candidate
  · rfl

theorem key_mem_of_seed {seed : Candidate} (hseed : seed ∈ (r.seeded query candidates).1) :
    seed.key ∈ candidates.map Candidate.key := by
  obtain ⟨before, hbefore, rfl⟩ := List.mem_map.mp hseed
  rw [key_markSeed, ← (keys_rerank_perm candidates false).mem_iff]
  exact List.mem_map_of_mem (List.mem_of_mem_take hbefore)

theorem seeded_candidate (hplain : ∀ candidate ∈ candidates,
      candidate.parentId = none ∧ candidate.isSeed = false) {candidate : Candidate}
    (hmem : candidate ∈ (r.seeded query candidates).2) :
    candidate.parentId = none ∧ (candidate.isSeed = true →
      candidate.key ∈ (r.seeded query candidates).1.map Candidate.key) := by
  obtain ⟨before, hbefore, rfl⟩ := List.mem_map.mp hmem
  obtain ⟨hparent, hseed⟩ := hplain before hbefore
  have hkeys : (r.seeded query candidates).1.map Candidate.key =
      ((r.rerank query candidates false).take r.config.seedLimit).map Candidate.key := by
    simp [seeded, Function.comp_def, key_markSeed]
  rw [hkeys]
  split
  · rename_i hchosen
    exact ⟨hparent, fun _ => hchosen⟩
  · refine ⟨hparent, fun hmarked => ?_⟩
    rw [hseed] at hmarked
    cases hmarked

/-- The candidates after expansion: those that were fused stay, and all lead back to a root. -/
theorem expandedCandidates_spec {limit : Nat} {expanded : List Candidate}
    {diagnostics : List String}
    (h : r.expandedCandidates query limit = .ok (expanded, diagnostics)) :
    (expanded.map Candidate.key).Nodup ∧
      (∀ key ∈ (r.fusedCandidates query limit).map Candidate.key,
        key ∈ expanded.map Candidate.key) ∧
      ∀ candidate ∈ expanded, Rooted expanded candidate.key := by
  obtain ⟨hnodup, -, hplain, -⟩ := @fusedCandidates_spec r query limit
  have hresult := expand_spec (by rw [keys_seeded]; exact hnodup)
    (fun candidate hmem => (seeded_candidate hplain hmem).1)
    (fun seed hseed => by
      have hkey := key_mem_of_seed hseed
      rw [← @keys_seeded _ r query] at hkey
      simpa using hkey)
    (fun candidate hmem => (seeded_candidate hplain hmem).2) h
  rwa [keys_seeded] at hresult

theorem expandedCandidates_eq_nil {limit : Nat} (hempty : r.fusedCandidates query limit = [])
    {expanded : List Candidate} {diagnostics : List String}
    (h : r.expandedCandidates query limit = .ok (expanded, diagnostics)) : expanded = [] := by
  simp only [expandedCandidates, seeded, hempty, rerank, expand, List.map_nil, sortBy,
    List.insertionSort_nil, List.take_nil] at h
  split at h
  · cases h
    rfl
  split at h
  · cases h
    rfl
  · have hloop (graph : GraphAdapter) (fuel : Nat) (state : Expansion) (hqueue : state.queue = []) :
        r.expandLoop graph fuel state = .ok state := by
      cases fuel with
      | zero => rfl
      | succ fuel => simp [expandLoop, hqueue]
    rw [hloop _ _ _ rfl] at h
    cases h
    rfl

end Seeds

/-! ## Bundles -/

section Bundles

variable (r : HybridRetriever)

/-- The bundle holds the full source of the variant with this key. -/
def Shows (bundle : ContextBundle) (key : String) : Prop :=
  ∃ item ∈ bundle.items, evidenceKey item.hit.symbol = key ∧ r.FullSource item

variable [RankingLibrary]

/-- The budgets hold, no variant appears twice, and without the flag nothing is missing. -/
structure WholeAnswer (query : String) (maxTokens limit : Nat) (bundle : ContextBundle) : Prop where
  characters : (bundle.renderedContext.length : Int) ≤ r.charBudget maxTokens
  tokens : bundle.estimatedTokens ≤ maxTokens
  distinct : (bundle.items.map fun item => evidenceKey item.hit.symbol).Nodup
  found : bundle.truncated = false → ∀ search ∈ r.searches, ∀ hit ∈ r.hitsOf query limit search,
    r.Shows bundle (evidenceKey hit.symbol)
  expanded : bundle.truncated = false → ∀ expanded diagnostics,
    r.expandedCandidates query limit = .ok (expanded, diagnostics) →
      ∀ candidate ∈ expanded, r.Shows bundle candidate.key

/-- Some search gave as many hits as it was asked for. -/
def SearchFull (query : String) (limit : Nat) : Prop :=
  ∃ search ∈ r.searches, r.searchLimit limit ≤ (r.hitsOf query limit search).length

/-- The fused hits fit under the limits, unless the request is refused or a search is full. -/
def FusedFits (query : String) (maxResults : Option Nat) : Prop :=
  isBlank query = true ∨ maxResults = some 0 ∨ r.SearchFull query (r.resultLimit maxResults) ∨
    (r.fusedKeys query (r.resultLimit maxResults)).length ≤
      min r.config.candidateLimit (r.resultLimit maxResults)

/-- The two ask the same searches under the same limits. -/
structure SameSearches (r other : HybridRetriever) : Prop where
  lexical : other.lexicalSearch = r.lexicalSearch
  symbol : other.symbolSearch = r.symbolSearch
  vector : other.vectorSearch = r.vectorSearch
  searchLimit : other.config.searchLimit = r.config.searchLimit
  candidateLimit : other.config.candidateLimit = r.config.candidateLimit

variable {r} {query : String} {maxResults : Option Nat} {maxTokens limit : Nat}
  {bundle : ContextBundle}

omit [RankingLibrary] in
theorem FusedFits.of_same {other : HybridRetriever} (h : r.FusedFits query maxResults)
    (hsame : r.SameSearches other) : other.FusedFits query maxResults := by
  obtain ⟨hlexical, hsymbol, hvector, hsearch, hcandidate⟩ := hsame
  have hlimit : other.resultLimit maxResults = r.resultLimit maxResults := by
    simp only [resultLimit, hcandidate]
  have hsearchLimit (limit : Nat) : other.searchLimit limit = r.searchLimit limit := by
    simp only [HybridRetriever.searchLimit, hsearch]
  have hhits (limit : Nat) (search : String × Backend) :
      other.hitsOf query limit search = r.hitsOf query limit search := by
    simp only [hitsOf, hsearchLimit]
  have hsearches : other.searches = r.searches := by
    simp only [searches, hlexical, hsymbol, hvector]
  unfold FusedFits SearchFull fusedKeys at h ⊢
  simp only [hlimit, hsearchLimit, hhits, hsearches, hcandidate]
  exact h

omit [RankingLibrary] in
theorem limit_pos (hresults : maxResults ≠ some 0) : 0 < r.resultLimit maxResults := by
  cases maxResults with
  | none => exact r.config.limitsPositive.2.1
  | some results =>
      have hne : results ≠ 0 := fun hzero => hresults (congrArg some hzero)
      exact Nat.pos_of_ne_zero hne

omit [RankingLibrary] in
theorem searchLimit_pos (hlimit : 0 < limit) : 0 < r.searchLimit limit :=
  lt_min r.config.limitsPositive.1 hlimit

/-- What a request answers with: the empty bundle, or the packing of the ranked candidates. -/
theorem retrieve_eq_ok (h : r.retrieve query maxTokens maxResults = .ok bundle) :
    isBlank query = false ∧ maxResults ≠ some 0 ∧
      (r.fusedCandidates query (r.resultLimit maxResults) = [] ∧ bundle.items = [] ∧
        bundle.renderedContext = "" ∧ bundle.estimatedTokens = 0 ∨
      ∃ expanded diagnostics,
        r.expandedCandidates query (r.resultLimit maxResults) = .ok (expanded, diagnostics) ∧
        bundle = r.pack query (r.rerank query expanded true) maxTokens (r.resultLimit maxResults)
          diagnostics (r.fusion query (r.resultLimit maxResults)).truncated) := by
  unfold retrieve at h
  split at h
  · cases h
  split at h
  · cases h
  split at h
  · cases h
  · rename_i hquery _ hresults
    refine ⟨by simpa using hquery, hresults, ?_⟩
    simp only at h
    split at h
    · rename_i hempty
      cases h
      exact .inl ⟨hempty, rfl, rfl, rfl⟩
    · split at h
      · cases h
      · rename_i expanded diagnostics hexpanded
        cases h
        exact .inr ⟨expanded, diagnostics, hexpanded, rfl⟩

omit [RankingLibrary] in
/-- The variants that the searches gave are fused when no search is full. -/
theorem hit_mem_fusedKeys (hfull : ¬ r.SearchFull query limit) {search : String × Backend}
    (hsearch : search ∈ r.searches) {hit : SearchHit Rat}
    (hhit : hit ∈ r.hitsOf query limit search) :
    evidenceKey hit.symbol ∈ r.fusedKeys query limit := by
  have hshort : (r.hitsOf query limit search).length ≤ r.searchLimit limit := by
    by_contra hlong
    exact hfull ⟨search, hsearch, (Nat.lt_of_not_le hlong).le⟩
  simp only [fusedKeys, List.mem_dedup, List.mem_map, List.mem_flatMap]
  exact ⟨hit, ⟨search, hsearch, by rwa [List.take_of_length_le hshort]⟩, rfl⟩

omit [RankingLibrary] in
theorem hitsOf_eq_nil (hkeys : r.fusedKeys query limit = []) (hlimit : 0 < limit)
    {search : String × Backend} (hsearch : search ∈ r.searches) :
    r.hitsOf query limit search = [] := by
  simp only [fusedKeys, List.dedup_eq_nil, List.map_eq_nil_iff, List.flatMap_eq_nil_iff,
    List.take_eq_nil_iff] at hkeys
  exact (hkeys search hsearch).resolve_left (searchLimit_pos hlimit).ne'

theorem wholeAnswer_of_fits (hfits : r.FusedFits query maxResults)
    (h : r.retrieve query maxTokens maxResults = .ok bundle) :
    r.WholeAnswer query maxTokens (r.resultLimit maxResults) bundle := by
  obtain ⟨hquery, hresults, hcase⟩ := retrieve_eq_ok h
  have hlimit : 0 < r.resultLimit maxResults := limit_pos hresults
  obtain ⟨-, hlength, -, hkeep⟩ := @fusedCandidates_spec r query (r.resultLimit maxResults)
  have hfuse : ¬ r.SearchFull query (r.resultLimit maxResults) →
      (r.fusedKeys query (r.resultLimit maxResults)).length ≤
        min r.config.candidateLimit (r.resultLimit maxResults) := by
    intro hfull
    rcases hfits with hblank | hzero | hfull' | hfits
    · rw [hquery] at hblank
      cases hblank
    · exact absurd hzero hresults
    · exact absurd hfull' hfull
    · exact hfits
  rcases hcase with ⟨hempty, hitems, hrendered, htokens⟩ |
    ⟨expanded, diagnostics, hexpanded, rfl⟩
  · have hkeys : r.fusedKeys query (r.resultLimit maxResults) = [] := by
      apply List.eq_nil_of_length_eq_zero
      have hcandidates := r.config.limitsPositive.2.1
      rw [hempty, List.length_nil] at hlength
      omega
    refine ⟨?_, ?_, ?_, fun _ search hsearch hit hhit => ?_, fun _ expanded diagnostics hok => ?_⟩
    · rw [hrendered]
      exact charBudget_nonneg maxTokens
    · rw [htokens]
      exact Int.natCast_nonneg _
    · simp [hitems]
    · rw [hitsOf_eq_nil hkeys hlimit hsearch] at hhit
      cases hhit
    · rw [expandedCandidates_eq_nil hempty hok]
      simp
  · obtain ⟨hnodup, hkept, hrooted⟩ := expandedCandidates_spec hexpanded
    have hranked := @keys_rerank_perm _ r query expanded true
    have hcomplete := @pack_complete r query (r.rerank query expanded true) maxTokens
      (r.resultLimit maxResults) diagnostics (r.fusion query (r.resultLimit maxResults)).truncated
      (hranked.nodup_iff.mpr hnodup) (rooted_rerank hrooted)
    have hall : _ → ∀ key ∈ expanded.map Candidate.key, r.Shows _ key := fun hflag key hkey => by
      obtain ⟨candidate, hmem, rfl⟩ := List.mem_map.mp (hranked.mem_iff.mpr hkey)
      exact (hcomplete hflag).2 candidate hmem
    refine ⟨pack_bounded, pack_estimatedTokens, pack_nodup (hranked.nodup_iff.mpr hnodup), ?_, ?_⟩
    · intro hflag search hsearch hit hhit
      have hfull : ¬ r.SearchFull query (r.resultLimit maxResults) := by
        intro hfull
        have htruncated := (fusion_truncated (searchLimit_pos hlimit)).mpr hfull
        rw [(hcomplete hflag).1] at htruncated
        cases htruncated
      exact hall hflag _ (hkept _ (hkeep (hfuse hfull) _ (hit_mem_fusedKeys hfull hsearch hhit)))
    · intro hflag others diagnostics' hok candidate hmem
      rw [hexpanded] at hok
      cases hok
      exact hall hflag _ (List.mem_map_of_mem hmem)

/-! ### What the limit on fused candidates loses -/

variable (r) in
/-- The same searches without graph and sources, one character to a token. -/
def bare : HybridRetriever :=
  { r with
    graph := none
    sourceReader := ⟨fun _ => .ok "", id⟩
    config :=
      { r.config with
        charsPerToken := 1
        maxContextChars := none
        thresholdsPositive := ⟨r.config.thresholdsPositive.1, one_pos⟩
        charsPositive := RetrievalConfig.standard.charsPositive } }

omit [RankingLibrary] in
theorem sameSearches_bare : r.SameSearches r.bare := ⟨rfl, rfl, rfl, rfl, rfl⟩

omit [RankingLibrary] in
theorem charBudget_bare (maxTokens : Nat) : r.bare.charBudget maxTokens = maxTokens := by
  simp [charBudget, bare]

omit [RankingLibrary] in
/-- With one key a candidate, no more than all candidates are connected. -/
theorem length_connected_le {ranked ordered : List Candidate}
    (hkeys : (ranked.map Candidate.key).Nodup) (hordered : connected ranked = some ordered) :
    ordered.length ≤ ranked.length := by
  obtain ⟨_, hsome, hnodup, hsubset, -⟩ := connected_spec hkeys
  rw [hordered] at hsome
  cases hsome
  have hsub : ordered.map Candidate.key ⊆ ranked.map Candidate.key := by
    intro key hkey
    obtain ⟨candidate, hmem, rfl⟩ := List.mem_map.mp hkey
    exact List.mem_map_of_mem (hsubset candidate hmem)
  simpa using (hnodup.subperm hsub).length_le

theorem retrieve_eq_pack (hquery : isBlank query = false) (htokens : maxTokens ≠ 0)
    (hresults : maxResults ≠ some 0)
    (hsome : r.fusedCandidates query (r.resultLimit maxResults) ≠ [])
    {expanded : List Candidate} {diagnostics : List String}
    (h : r.expandedCandidates query (r.resultLimit maxResults) = .ok (expanded, diagnostics)) :
    r.retrieve query maxTokens maxResults =
      .ok (r.pack query (r.rerank query expanded true) maxTokens (r.resultLimit maxResults)
        diagnostics (r.fusion query (r.resultLimit maxResults)).truncated) := by
  unfold retrieve
  simp only [hquery, Bool.false_eq_true, htokens, hresults, ↓reduceIte, hsome, h]

/-- Without graph, and with room for all texts, the fused candidates are all that is packed. -/
theorem retrieve_bare (hquery : isBlank query = false) (hresults : maxResults ≠ some 0)
    (hfull : ¬ r.SearchFull query (r.resultLimit maxResults))
    (hsome : r.fusedKeys query (r.resultLimit maxResults) ≠ []) :
    ∃ maxTokens bundle, r.bare.retrieve query maxTokens maxResults = .ok bundle ∧
      bundle.truncated = false ∧
      bundle.items.length ≤ min r.config.candidateLimit (r.resultLimit maxResults) := by
  have hlimit : 0 < r.resultLimit maxResults := limit_pos hresults
  obtain ⟨hnodup, hlength, -, -⟩ := @fusedCandidates_spec r query (r.resultLimit maxResults)
  have hpositive := List.length_pos_of_ne_nil hsome
  have hcandidates := r.config.limitsPositive.2.1
  have hcandidate : r.bare.fusedCandidates query (r.bare.resultLimit maxResults) ≠ [] := by
    apply List.ne_nil_of_length_pos
    exact hlength.symm ▸ lt_min (lt_min hcandidates hlimit) hpositive
  have hexpanded : r.bare.expandedCandidates query (r.bare.resultLimit maxResults) =
      .ok ((r.bare.seeded query
          (r.bare.fusedCandidates query (r.bare.resultLimit maxResults))).2,
        r.bare.fusionDiagnostics query (r.bare.resultLimit maxResults)) := rfl
  have hperm := @keys_rerank_perm _ r.bare query (r.bare.seeded query
    (r.bare.fusedCandidates query (r.bare.resultLimit maxResults))).2 true
  rw [keys_seeded] at hperm
  have hranked := hperm.nodup_iff.mpr hnodup
  obtain ⟨ordered, hordered, -, -, -⟩ := connected_spec hranked
  have hshort : ordered.length ≤ min r.config.candidateLimit (r.resultLimit maxResults) := by
    have hle := length_connected_le hranked hordered
    have hrankedLength := hperm.length_eq
    rw [List.length_map, List.length_map] at hrankedLength
    rw [hrankedLength] at hle
    exact hle.trans (hlength.trans_le (min_le_left _ _))
  have htruncated : (r.bare.fusion query (r.bare.resultLimit maxResults)).truncated = false := by
    rw [← Bool.not_eq_true]
    exact fun hflag => hfull ((fusion_truncated (searchLimit_pos hlimit)).mp hflag)
  have hpack := @pack_fits r.bare query _
    ((ordered.map fun candidate => (r.bare.fullText candidate "").length).sum + 1)
    (r.bare.resultLimit maxResults)
    (r.bare.fusionDiagnostics query (r.bare.resultLimit maxResults)) false "" ordered hordered
    (fun _ _ => rfl) (hshort.trans (min_le_right _ _)) (by rw [charBudget_bare]; omega)
  rw [← htruncated] at hpack
  refine ⟨_, _, retrieve_eq_pack hquery (Nat.succ_ne_zero _) hresults hcandidate hexpanded,
    hpack.1.trans htruncated, ?_⟩
  rw [hpack.2]
  exact hshort

/-- What the limit on fused candidates cuts is the only loss that a bundle does not report. -/
theorem retrieve_wholeAnswer_iff (r : HybridRetriever) (query : String) (maxResults : Option Nat) :
    (∀ other, r.SameSearches other → ∀ maxTokens bundle,
      other.retrieve query maxTokens maxResults = .ok bundle →
        other.WholeAnswer query maxTokens (other.resultLimit maxResults) bundle) ↔
      r.FusedFits query maxResults := by
  constructor
  · intro hwhole
    by_contra hfits
    simp only [FusedFits, not_or, Bool.not_eq_true, Nat.not_le] at hfits
    obtain ⟨hquery, hresults, hfull, hmany⟩ := hfits
    obtain ⟨maxTokens, bundle, hbundle, hflag, hshort⟩ := retrieve_bare hquery hresults hfull
      (List.ne_nil_of_length_pos (by omega))
    have hfound := (hwhole r.bare sameSearches_bare maxTokens bundle hbundle).found hflag
    have hsub : r.fusedKeys query (r.resultLimit maxResults) ⊆
        bundle.items.map fun item => evidenceKey item.hit.symbol := by
      intro key hkey
      simp only [fusedKeys, List.mem_dedup, List.mem_map, List.mem_flatMap] at hkey
      obtain ⟨hit, ⟨search, hsearch, hhit⟩, rfl⟩ := hkey
      obtain ⟨item, hitem, hsame, -⟩ := hfound search hsearch hit (List.mem_of_mem_take hhit)
      exact List.mem_map.mpr ⟨item, hitem, hsame⟩
    have hcount := ((List.nodup_dedup _).subperm hsub).length_le
    rw [List.length_map] at hcount
    exact absurd (hmany.trans_le hcount) (Nat.not_lt.mpr hshort)
  · intro hfits other hsame maxTokens bundle hbundle
    exact wholeAnswer_of_fits (hfits.of_same hsame) hbundle

end Bundles

/-! ### One hit from each search -/

section ThreeHits

def alpha : Identifier := ⟨"alpha", by decide⟩
def beta : Identifier := ⟨"beta", by decide⟩
def gamma : Identifier := ⟨"gamma", by decide⟩

def variableHit (name : Identifier) : SearchHit Rat where
  symbol := { text :=
    { id := name
      qualifiedName := name
      kind := .variable
      span := .start "a.cpp" } }
  score := 1
  source := "store"

def threeHits : HybridRetriever where
  lexicalSearch _ _ := .ok [variableHit alpha]
  symbolSearch _ _ := .ok [variableHit beta]
  vectorSearch _ _ := .ok [variableHit gamma]
  symbolStore := ⟨none, fun _ _ => .ok none⟩
  sourceReader := ⟨fun _ => .ok "int x;", id⟩
  buildScope := .default

/-- ASCII texts; no hub is large enough for a square root, and no call is formatted. -/
local instance asciiRanking : RankingLibrary where
  casefold := String.toLower
  sqrt root := root
  twoDecimals _ := "1.00"

/-- Two results are allowed and two are shown, the third is lost without the flag. -/
theorem threeHits_loses_one : ∃ bundle, threeHits.retrieve "count" 500 (some 2) = .ok bundle ∧
    bundle.truncated = false ∧ ¬ threeHits.WholeAnswer "count" 500 2 bundle := by
  have hshown : (threeHits.retrieve "count" 500 (some 2)).map (fun bundle =>
      (bundle.items.map fun item => evidenceKey item.hit.symbol, bundle.truncated)) =
      .ok (["default:beta", "default:alpha"], false) := by decide +kernel
  cases hbundle : threeHits.retrieve "count" 500 (some 2) with
  | error raised =>
      rw [hbundle] at hshown
      cases hshown
  | ok bundle =>
      rw [hbundle] at hshown
      simp only [Except.map, Except.ok.injEq, Prod.mk.injEq] at hshown
      obtain ⟨hkeys, hflag⟩ := hshown
      refine ⟨bundle, rfl, hflag, fun hwhole => ?_⟩
      have hfound := hwhole.found hflag ("vector", threeHits.vectorSearch) (by simp [searches])
        (variableHit gamma) (by simp [hitsOf, threeHits])
      obtain ⟨item, hitem, hkey, -⟩ := hfound
      have hmem : evidenceKey (variableHit gamma).symbol ∈
          ["default:beta", "default:alpha"] := by
        rw [← hkeys]
        exact List.mem_map.mpr ⟨item, hitem, hkey⟩
      revert hmem
      decide

end ThreeHits

end HybridRetriever

end CppContextEngine.Retrieval
