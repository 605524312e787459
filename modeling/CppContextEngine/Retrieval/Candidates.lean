import CppContextEngine.Foundation.Table
import CppContextEngine.Retrieval.Packing

/-!
# Candidates

What the searches found is fused under distinct keys.  Graph expansion keeps
every candidate and links each one it reaches back to a seed, so that all
candidates stay connected to a root; ranking changes their order and scores only.
-/

namespace CppContextEngine.Retrieval

open CppContextEngine.Foundation CppContextEngine.Models

namespace HybridRetriever

/-! ## Fusion -/

section Fusion

theorem map_key_addTo (fused : List Fused) (hit : Fused) :
    (hit.addTo fused).map Fused.key =
      if hit.key ∈ fused.map Fused.key then fused.map Fused.key
      else fused.map Fused.key ++ [hit.key] := by
  unfold Fused.addTo
  split
  · rw [List.map_map]
    refine List.map_congr_left fun entry _ => ?_
    simp only [Function.comp_apply]
    split <;> rfl
  · simp

/-- Fused entries stand under the keys of their symbols, one for each key. -/
structure WellKeyed (fused : List Fused) : Prop where
  nodup : (fused.map Fused.key).Nodup
  keyed : ∀ entry ∈ fused, entry.key = evidenceKey entry.symbol

theorem WellKeyed.addTo {fused : List Fused} (h : WellKeyed fused) {hit : Fused}
    (hhit : hit.key = evidenceKey hit.symbol) : WellKeyed (hit.addTo fused) where
  nodup := by
    rw [map_key_addTo]
    split
    · exact h.nodup
    · rename_i hnew
      exact List.nodup_append.mpr ⟨h.nodup, List.nodup_singleton _, by
        rintro key hkey other hother rfl
        exact hnew (List.mem_singleton.mp hother ▸ hkey)⟩
  keyed := by
    unfold Fused.addTo
    split
    · intro entry hentry
      obtain ⟨old, hold, rfl⟩ := List.mem_map.mp hentry
      split
      · rename_i hkey
        exact hkey.trans hhit
      · exact h.keyed old hold
    · intro entry hentry
      rcases List.mem_append.mp hentry with hentry | hentry
      · exact h.keyed entry hentry
      · exact List.mem_singleton.mp hentry ▸ hhit

theorem foldl_fuseHit (name : String) (weight : Rat) (rrfK : Nat)
    (hits : List (SearchHit Rat × Nat)) : ∀ {seen : List String} {fused : List Fused},
    WellKeyed fused → (∀ key ∈ seen, key ∈ fused.map Fused.key) →
      WellKeyed (hits.foldl (fuseHit name weight rrfK) (seen, fused)).2 ∧
      ∀ key, key ∈ (hits.foldl (fuseHit name weight rrfK) (seen, fused)).2.map Fused.key ↔
        key ∈ fused.map Fused.key ∨
          ∃ hit ∈ hits.map Prod.fst, evidenceKey hit.symbol = key := by
  induction hits with
  | nil => exact fun h _ => ⟨h, by simp⟩
  | cons hit hits ih =>
      intro seen fused h hseen
      by_cases hknown : evidenceKey hit.1.symbol ∈ seen
      · have hstep : fuseHit name weight rrfK (seen, fused) hit = (seen, fused) := by
          simp [fuseHit, hknown]
        rw [List.foldl_cons, hstep]
        obtain ⟨hkeyed, hmem⟩ := ih h hseen
        refine ⟨hkeyed, fun key => ?_⟩
        rw [hmem, List.map_cons, List.exists_mem_cons_iff]
        constructor
        · exact fun hkey => hkey.imp_right .inr
        · rintro (hkey | rfl | hkey)
          · exact .inl hkey
          · exact .inl (hseen _ hknown)
          · exact .inr hkey
      · rw [List.foldl_cons]
        simp only [fuseHit, hknown, ↓reduceIte]
        have hadded : WellKeyed (Fused.addTo fused
            { key := evidenceKey hit.1.symbol
              score := weight / (rrfK + hit.2)
              symbol := hit.1.symbol
              reasons := [name ++ " rank " ++ toString hit.2] }) := h.addTo rfl
        obtain ⟨hkeyed, hmem⟩ := @ih (seen ++ [evidenceKey hit.1.symbol]) _ hadded (by
          intro key hkey
          rw [map_key_addTo]
          rcases List.mem_append.mp hkey with hkey | hkey
          · split
            · exact hseen key hkey
            · exact List.mem_append_left _ (hseen key hkey)
          · rw [List.mem_singleton.mp hkey]
            split
            · assumption
            · simp)
        refine ⟨hkeyed, fun key => ?_⟩
        rw [hmem, map_key_addTo, List.map_cons, List.exists_mem_cons_iff]
        split
        · rename_i hold
          constructor
          · exact fun hkey => hkey.imp_right .inr
          · rintro (hkey | rfl | hkey)
            · exact .inl hkey
            · exact .inl hold
            · exact .inr hkey
        · rw [List.mem_append, List.mem_singleton, or_assoc, eq_comm]

variable (r : HybridRetriever) (text : String) (resultLimit : Nat)

/-- The hits of a search that did not fail. -/
def hitsOf (search : String × Backend) : List (SearchHit Rat) :=
  match search.2 text (r.searchLimit resultLimit) with
  | .error _ => []
  | .ok hits => hits

variable {r text resultLimit}

theorem fuseBackend_spec {state : Fusion} (h : WellKeyed state.fused)
    (search : String × Backend) :
    WellKeyed (r.fuseBackend text resultLimit state search).fused ∧
      ∀ key, key ∈ (r.fuseBackend text resultLimit state search).fused.map Fused.key ↔
        key ∈ state.fused.map Fused.key ∨
          ∃ hit ∈ (r.hitsOf text resultLimit search).take (r.searchLimit resultLimit),
            evidenceKey hit.symbol = key := by
  cases hresult : search.2 text (r.searchLimit resultLimit) with
  | error raised =>
      simp only [fuseBackend, hitsOf, hresult, List.take_nil]
      exact ⟨h, by simp⟩
  | ok hits =>
      have hfold := foldl_fuseHit search.1 (r.weightOf search.1) r.config.rrfK
        ((hits.take (r.searchLimit resultLimit)).zipIdx 1) h
        (fun key (hkey : key ∈ []) => absurd hkey List.not_mem_nil)
      rw [List.zipIdx_map_fst] at hfold
      simpa only [fuseBackend, hitsOf, hresult] using hfold

theorem fuseBackend_truncated (hlimit : 0 < r.searchLimit resultLimit) (state : Fusion)
    (search : String × Backend) :
    (r.fuseBackend text resultLimit state search).truncated = true ↔ state.truncated = true ∨
      r.searchLimit resultLimit ≤ (r.hitsOf text resultLimit search).length := by
  cases hresult : search.2 text (r.searchLimit resultLimit) with
  | error raised =>
      simp only [fuseBackend, hitsOf, hresult, List.length_nil, Nat.le_zero]
      exact ⟨.inl, fun h => h.resolve_right hlimit.ne'⟩
  | ok hits => simp [fuseBackend, hitsOf, hresult]

variable (r text resultLimit) in
/-- The distinct variants among the hits that are fused. -/
def fusedKeys : List String :=
  ((r.searches.flatMap fun search =>
    (r.hitsOf text resultLimit search).take (r.searchLimit resultLimit)).map fun hit =>
      evidenceKey hit.symbol).dedup

theorem foldl_fuseBackend (searches : List (String × Backend)) : ∀ {state : Fusion},
    WellKeyed state.fused →
      WellKeyed (searches.foldl (r.fuseBackend text resultLimit) state).fused ∧
      ∀ key, key ∈ (searches.foldl (r.fuseBackend text resultLimit) state).fused.map Fused.key ↔
        key ∈ state.fused.map Fused.key ∨ ∃ search ∈ searches, ∃ hit ∈
          (r.hitsOf text resultLimit search).take (r.searchLimit resultLimit),
          evidenceKey hit.symbol = key := by
  induction searches with
  | nil => exact fun h => ⟨h, by simp⟩
  | cons search searches ih =>
      intro state h
      obtain ⟨hkeyed, hmem⟩ := fuseBackend_spec h search
      obtain ⟨hrest, hall⟩ := ih hkeyed
      refine ⟨hrest, fun key => ?_⟩
      rw [List.foldl_cons, hall, hmem, or_assoc, List.exists_mem_cons_iff]

theorem fusion_perm :
    WellKeyed (r.fusion text resultLimit).fused ∧
      ((r.fusion text resultLimit).fused.map Fused.key).Perm (r.fusedKeys text resultLimit) := by
  have hempty : WellKeyed ({} : Fusion).fused := ⟨List.nodup_nil, by simp⟩
  obtain ⟨hkeyed, hmem⟩ := @foldl_fuseBackend r text resultLimit r.searches _ hempty
  refine ⟨hkeyed, (List.perm_ext_iff_of_nodup hkeyed.nodup (List.nodup_dedup _)).mpr ?_⟩
  intro key
  refine (hmem key).trans ?_
  simp only [List.mem_dedup, List.mem_map, List.mem_flatMap, List.map_nil, List.not_mem_nil,
    false_or]
  constructor
  · rintro ⟨search, hsearch, hit, hhit, hkey⟩
    exact ⟨hit, ⟨search, hsearch, hhit⟩, hkey⟩
  · rintro ⟨hit, ⟨search, hsearch, hhit⟩, hkey⟩
    exact ⟨search, hsearch, hit, hhit, hkey⟩

theorem fusion_truncated (hlimit : 0 < r.searchLimit resultLimit) :
    (r.fusion text resultLimit).truncated = true ↔ ∃ search ∈ r.searches,
      r.searchLimit resultLimit ≤ (r.hitsOf text resultLimit search).length := by
  rw [fusion, foldl_adds (P := fun state : Fusion => state.truncated = true)
    (Q := fun search => r.searchLimit resultLimit ≤ (r.hitsOf text resultLimit search).length)
    (fuseBackend_truncated hlimit)]
  simp

theorem fusedCandidates_spec :
    ((r.fusedCandidates text resultLimit).map Candidate.key).Nodup ∧
      (r.fusedCandidates text resultLimit).length =
        min (min r.config.candidateLimit resultLimit) (r.fusedKeys text resultLimit).length ∧
      (∀ candidate ∈ r.fusedCandidates text resultLimit,
        candidate.parentId = none ∧ candidate.isSeed = false) ∧
      ((r.fusedKeys text resultLimit).length ≤ min r.config.candidateLimit resultLimit →
        ∀ key ∈ r.fusedKeys text resultLimit,
          key ∈ (r.fusedCandidates text resultLimit).map Candidate.key) := by
  obtain ⟨hkeyed, hperm⟩ := @fusion_perm r text resultLimit
  have hsorted := List.perm_insertionSort (fun entry other : Fused => other.score ≤ entry.score)
    (r.fusion text resultLimit).fused
  have hlength : ((r.fusion text resultLimit).fused.insertionSort fun entry other =>
      other.score ≤ entry.score).length = (r.fusedKeys text resultLimit).length := by
    rw [hsorted.length_eq, ← hperm.length_eq, List.length_map]
  have hkeys : (r.fusedCandidates text resultLimit).map Candidate.key =
      (((r.fusion text resultLimit).fused.insertionSort fun entry other =>
        other.score ≤ entry.score).take (min r.config.candidateLimit resultLimit)).map
          Fused.key := by
    rw [fusedCandidates, List.map_map]
    refine List.map_congr_left fun entry hentry => ?_
    exact (hkeyed.keyed entry (hsorted.mem_iff.mp (List.mem_of_mem_take hentry))).symm
  refine ⟨?_, ?_, ?_, ?_⟩
  · rw [hkeys]
    exact ((hsorted.map Fused.key).nodup_iff.mpr hkeyed.nodup).sublist
      ((List.take_sublist _ _).map Fused.key)
  · rw [fusedCandidates, List.length_map, List.length_take, hlength]
  · intro candidate hcandidate
    obtain ⟨entry, -, rfl⟩ := List.mem_map.mp hcandidate
    exact ⟨rfl, rfl⟩
  · intro hall key hkey
    rw [hkeys, List.take_of_length_le (by rw [hlength]; exact hall)]
    exact (hsorted.map Fused.key).mem_iff.mpr (hperm.mem_iff.mpr hkey)

end Fusion

/-! ## Expansion -/

section Expansion

/-- What holds of the candidates, the queue and the visited keys between two edges. -/
structure Linked (seeds known : List String) (candidates : List Candidate)
    (queue : List (Candidate × Nat)) (visited : List String) : Prop where
  nodup : (candidates.map Candidate.key).Nodup
  keeps : ∀ key ∈ known, key ∈ candidates.map Candidate.key
  seedVisited : ∀ key ∈ seeds, key ∈ visited
  seedKeys : ∀ candidate ∈ candidates, candidate.isSeed = true → candidate.key ∈ seeds
  childVisited : ∀ candidate ∈ candidates, candidate.parentId ≠ none → candidate.key ∈ visited
  parentVisited : ∀ candidate ∈ candidates, ∀ parent, candidate.parentId = some parent →
    parent ∈ visited
  rooted : ∀ key ∈ visited, Rooted candidates key
  queued : ∀ entry ∈ queue, entry.1.key ∈ visited

theorem isRoot_eq_false {candidate : Candidate} {parent : String}
    (hparent : candidate.parentId = some parent) (hseed : candidate.isSeed = false) :
    isRoot candidate = false := by
  simp [isRoot, hparent, hseed]

theorem mem_putCandidate {candidates : List Candidate} {candidate other : Candidate} :
    other ∈ putCandidate candidates candidate ↔
      other = candidate ∨ other ∈ candidates ∧ other.key ≠ candidate.key := by
  unfold putCandidate
  split
  · rename_i hknown
    obtain ⟨old, hold, hkey⟩ := List.mem_map.mp hknown
    constructor
    · intro hother
      obtain ⟨before, hbefore, rfl⟩ := List.mem_map.mp hother
      split
      · exact .inl rfl
      · rename_i hne
        exact .inr ⟨hbefore, hne⟩
    · rintro (rfl | ⟨hother, hne⟩)
      · exact List.mem_map.mpr ⟨old, hold, by simp [hkey]⟩
      · exact List.mem_map.mpr ⟨other, hother, by simp [hne]⟩
  · rename_i hnew
    rw [List.mem_append, List.mem_singleton, or_comm]
    refine or_congr_right ⟨fun hother => ⟨hother, fun hkey => ?_⟩, And.left⟩
    exact hnew (hkey ▸ List.mem_map_of_mem hother)

theorem map_key_putCandidate {candidates : List Candidate} {candidate : Candidate} :
    (putCandidate candidates candidate).map Candidate.key =
      if candidate.key ∈ candidates.map Candidate.key then candidates.map Candidate.key
      else candidates.map Candidate.key ++ [candidate.key] := by
  unfold putCandidate
  split
  · rw [List.map_map]
    refine List.map_congr_left fun other _ => ?_
    simp only [Function.comp_apply]
    split
    · rename_i hkey
      exact hkey.symm
    · rfl
  · simp

section Put

variable {seeds known : List String} {candidates : List Candidate}
  {queue : List (Candidate × Nat)} {visited : List String} {candidate : Candidate}
  {parent : String}

/-- Links between other candidates survive a candidate on a new path. -/
theorem Linked.rooted_put (h : Linked seeds known candidates queue visited)
    (hnew : candidate.key ∉ visited) {key : String} (hkey : Rooted candidates key)
    (hne : key ≠ candidate.key) : Rooted (putCandidate candidates candidate) key := by
  obtain ⟨first, hfirst, hpath⟩ := hkey
  induction hpath with
  | refl =>
      obtain ⟨root, hroot, rfl⟩ := List.mem_map.mp hfirst
      obtain ⟨hmem, hisRoot⟩ := List.mem_filter.mp hroot
      exact ⟨_, List.mem_map_of_mem (List.mem_filter.mpr
        ⟨mem_putCandidate.mpr (.inr ⟨hmem, hne⟩), hisRoot⟩), .refl⟩
  | @tail before key _ hedge ih =>
      obtain ⟨child, hchild, hisRoot, hparent, rfl⟩ := (mem_childKeys candidates).mp hedge
      have hbefore : before ≠ candidate.key := by
        rintro rfl
        exact hnew (h.parentVisited child hchild _ hparent)
      obtain ⟨root, hroot, hpath⟩ := ih hbefore
      refine ⟨root, hroot, hpath.tail ((mem_childKeys _).mpr ⟨child, ?_, hisRoot, hparent, rfl⟩)⟩
      exact mem_putCandidate.mpr (.inr ⟨hchild, hne⟩)

theorem Linked.put (h : Linked seeds known candidates queue visited)
    (hnew : candidate.key ∉ visited) (hseed : candidate.isSeed = false)
    (hparent : candidate.parentId = some parent) (hvisited : parent ∈ visited) (depth : Nat) :
    Linked seeds known (putCandidate candidates candidate) (queue ++ [(candidate, depth)])
      (visited ++ [candidate.key]) where
  nodup := by
    rw [map_key_putCandidate]
    split
    · exact h.nodup
    · rename_i hfresh
      refine List.nodup_append.mpr ⟨h.nodup, List.nodup_singleton _, ?_⟩
      rintro key hkey other hother rfl
      exact hfresh (List.mem_singleton.mp hother ▸ hkey)
  keeps key hkey := by
    rw [map_key_putCandidate]
    split
    · exact h.keeps key hkey
    · exact List.mem_append_left _ (h.keeps key hkey)
  seedVisited key hkey := List.mem_append_left _ (h.seedVisited key hkey)
  seedKeys other hother hisSeed := by
    rcases mem_putCandidate.mp hother with rfl | ⟨hother, -⟩
    · simp [hseed] at hisSeed
    · exact h.seedKeys other hother hisSeed
  childVisited other hother hchild := by
    rcases mem_putCandidate.mp hother with rfl | ⟨hother, -⟩
    · simp
    · exact List.mem_append_left _ (h.childVisited other hother hchild)
  parentVisited other hother above habove := by
    rcases mem_putCandidate.mp hother with rfl | ⟨hother, -⟩
    · rw [hparent] at habove
      cases habove
      exact List.mem_append_left _ hvisited
    · exact List.mem_append_left _ (h.parentVisited other hother above habove)
  rooted key hkey := by
    have hnotNew {other : String} (hother : other ∈ visited) : other ≠ candidate.key := by
      rintro rfl
      exact hnew hother
    rcases List.mem_append.mp hkey with hkey | hkey
    · exact h.rooted_put hnew (h.rooted key hkey) (hnotNew hkey)
    · rw [List.mem_singleton.mp hkey]
      obtain ⟨root, hroot, hpath⟩ :=
        h.rooted_put hnew (h.rooted parent hvisited) (hnotNew hvisited)
      refine ⟨root, hroot, hpath.tail ((mem_childKeys _).mpr ⟨candidate, ?_, ?_, hparent, rfl⟩)⟩
      · exact mem_putCandidate.mpr (.inl rfl)
      · exact isRoot_eq_false hparent hseed
  queued entry hentry := by
    rcases List.mem_append.mp hentry with hentry | hentry
    · exact List.mem_append_left _ (h.queued entry hentry)
    · rw [List.mem_singleton.mp hentry]
      simp

theorem Linked.dequeue {entry : Candidate × Nat}
    (h : Linked seeds known candidates (entry :: queue) visited) :
    Linked seeds known candidates queue visited :=
  { h with queued := fun other hother => h.queued other (List.mem_cons_of_mem _ hother) }

end Put

section Steps

variable {r : HybridRetriever} {seeds known : List String}

/-- What a part of the loop makes of `state`: links stay, and each new node is enqueued once. -/
structure Advance (r : HybridRetriever) (seeds known : List String) (state next : Expansion) :
    Prop where
  linked : Linked seeds known next.candidates next.queue next.visited
  visited : ∀ key ∈ state.visited, key ∈ next.visited
  pushed : next.queue.length + state.expandedNodes = state.queue.length + next.expandedNodes
  bounded : state.expandedNodes ≤ r.config.graphNodeBudget →
    next.expandedNodes ≤ r.config.graphNodeBudget

theorem Advance.refl {state : Expansion}
    (h : Linked seeds known state.candidates state.queue state.visited) :
    r.Advance seeds known state state :=
  ⟨h, fun _ => id, rfl, id⟩

theorem Advance.trans {state middle next : Expansion} (h : r.Advance seeds known state middle)
    (h' : r.Advance seeds known middle next) : r.Advance seeds known state next where
  linked := h'.linked
  visited key hkey := h'.visited key (h.visited key hkey)
  pushed := by
    have := h.pushed
    have := h'.pushed
    omega
  bounded hstate := h'.bounded (h.bounded hstate)

variable [RankingLibrary] {evidence : CallEvidence}
  {prefetched : List ((String × String) × Option CodeSymbol)}

theorem key_reach (current : Candidate) (depth degree : Nat) (edge : GraphEdge)
    (symbol : CodeSymbol) (candidates : List Candidate) :
    (r.reach current depth degree evidence edge symbol (candidates.find? fun candidate =>
      candidate.key = evidenceKey symbol)).key = evidenceKey symbol := by
  cases hfound : candidates.find? fun candidate => candidate.key = evidenceKey symbol with
  | none => rfl
  | some candidate =>
      have hkey : candidate.key = evidenceKey symbol := by simpa using List.find?_some hfound
      simp only [reach, Candidate.key]
      split
      · rfl
      · exact hkey

/-- A candidate that was not visited is no seed. -/
theorem isSeed_reach {state : Expansion}
    (h : Linked seeds known state.candidates state.queue state.visited) {symbol : CodeSymbol}
    (hnew : evidenceKey symbol ∉ state.visited) (current : Candidate) (depth degree : Nat)
    (edge : GraphEdge) :
    (r.reach current depth degree evidence edge symbol (state.candidates.find? fun candidate =>
      candidate.key = evidenceKey symbol)).isSeed = false := by
  cases hfound : state.candidates.find? fun candidate => candidate.key = evidenceKey symbol with
  | none => rfl
  | some candidate =>
      have hkey : candidate.key = evidenceKey symbol := by simpa using List.find?_some hfound
      refine Bool.eq_false_iff.mpr fun hseed => hnew ?_
      rw [← hkey]
      exact h.seedVisited _ (h.seedKeys candidate (List.mem_of_find?_eq_some hfound) hseed)

theorem visitSymbol_advance {current : Candidate} {depth degree : Nat} {edge : GraphEdge}
    {symbol : CodeSymbol} {state : Expansion}
    (h : Linked seeds known state.candidates state.queue state.visited)
    (hcurrent : current.key ∈ state.visited) (hnew : evidenceKey symbol ∉ state.visited)
    (hbudget : state.expandedNodes < r.config.graphNodeBudget) :
    r.Advance seeds known state
      (r.visitSymbol current depth degree evidence edge symbol state) := by
  have hkey := @key_reach r _ evidence current depth degree edge symbol state.candidates
  have hparent : (r.reach current depth degree evidence edge symbol (state.candidates.find?
      fun candidate => candidate.key = evidenceKey symbol)).parentId = some current.key := by
    cases state.candidates.find? fun candidate => candidate.key = evidenceKey symbol <;> rfl
  refine ⟨?_, fun key hmem => List.mem_append_left _ hmem, ?_, fun _ => hbudget⟩
  · have hput := h.put (by rw [hkey]; exact hnew) (isSeed_reach h hnew current depth degree edge)
      hparent hcurrent (depth + 1)
    rw [hkey] at hput
    exact hput
  · simp only [visitSymbol, List.length_append, List.length_singleton]
    omega

theorem visitEdge_advance {current : Candidate} {depth degree : Nat} {edge : GraphEdge}
    {state next : Expansion}
    (h : Linked seeds known state.candidates state.queue state.visited)
    (hcurrent : current.key ∈ state.visited)
    (hbudget : state.expandedNodes < r.config.graphNodeBudget)
    (hnext : r.visitEdge current depth degree evidence prefetched edge state = .ok next) :
    r.Advance seeds known state next := by
  unfold visitEdge at hnext
  split at hnext
  · cases hnext
    exact .refl h
  split at hnext
  · cases hnext
    exact .refl h
  · rename_i neighbor _ _
    cases hfetch : r.fetchSymbol prefetched edge.buildVariant neighbor with
    | error raised =>
        rw [hfetch] at hnext
        cases hnext
    | ok found =>
        simp only [hfetch, bind, Except.bind, pure, Except.pure] at hnext
        split at hnext
        · cases hnext
          exact .refl h
        split at hnext
        · cases hnext
          exact .refl h
        · rename_i hnew
          cases hnext
          exact visitSymbol_advance h hcurrent hnew hbudget

theorem visitEdges_advance {current : Candidate} {depth degree : Nat} (edges : List GraphEdge) :
    ∀ {state next : Expansion}, Linked seeds known state.candidates state.queue state.visited →
      current.key ∈ state.visited →
      r.visitEdges current depth degree evidence prefetched edges state = .ok next →
      r.Advance seeds known state next := by
  induction edges with
  | nil =>
      intro state next h _ hnext
      cases hnext
      exact .refl h
  | cons edge edges ih =>
      intro state next h hcurrent hnext
      unfold visitEdges at hnext
      split at hnext
      · cases hnext
        exact ⟨h, fun _ => id, rfl, id⟩
      · rename_i hbudget
        rw [not_or, Nat.not_le, Nat.not_le] at hbudget
        cases hstep : r.visitEdge current depth degree evidence prefetched edge
            { state with edgeCount := state.edgeCount + 1 } with
        | error raised =>
            rw [hstep] at hnext
            cases hnext
        | ok middle =>
            rw [hstep] at hnext
            have hadvance := @visitEdge_advance r seeds known _ evidence prefetched current depth
              degree edge { state with edgeCount := state.edgeCount + 1 } middle h hcurrent
              hbudget.2 hstep
            have hfirst : r.Advance seeds known state middle :=
              ⟨hadvance.linked, hadvance.visited, hadvance.pushed, hadvance.bounded⟩
            exact hfirst.trans (ih hadvance.linked (hadvance.visited _ hcurrent) hnext)

theorem expandNext_advance {graph : GraphAdapter} {current : Candidate} {depth : Nat}
    {state next : Expansion}
    (h : Linked seeds known state.candidates state.queue state.visited)
    (hcurrent : current.key ∈ state.visited)
    (hnext : r.expandNext graph current depth state = .ok next) :
    r.Advance seeds known state next := by
  unfold expandNext at hnext
  split at hnext
  · cases hnext
    exact .refl h
  split at hnext
  · cases hnext
    exact ⟨h, fun _ => id, rfl, id⟩
  unfold expandNode at hnext
  split at hnext
  · cases hnext
    exact ⟨h, fun _ => id, rfl, id⟩
  · rename_i raw _
    simp only [bind, Except.bind] at hnext
    split at hnext
    · cases hnext
    · have hadvance := visitEdges_advance _ (by exact h) (by exact hcurrent) hnext
      exact ⟨hadvance.linked, hadvance.visited, hadvance.pushed, hadvance.bounded⟩

/-- The loop keeps the links, and stops only when its own condition ends it. -/
theorem expandLoop_spec {graph : GraphAdapter} (fuel : Nat) : ∀ {state next : Expansion},
    Linked seeds known state.candidates state.queue state.visited →
      state.expandedNodes ≤ r.config.graphNodeBudget →
      state.queue.length + r.config.graphNodeBudget ≤ fuel + state.expandedNodes →
      r.expandLoop graph fuel state = .ok next →
      Linked seeds known next.candidates next.queue next.visited ∧
        (next.queue = [] ∨ r.config.graphEdgeBudget ≤ next.edgeCount) := by
  induction fuel with
  | zero =>
      intro state next h hnodes hfuel hnext
      cases hnext
      have hempty : state.queue.length = 0 := by omega
      exact ⟨h, .inl (List.eq_nil_of_length_eq_zero hempty)⟩
  | succ fuel ih =>
      intro state next h hnodes hfuel hnext
      unfold expandLoop at hnext
      split at hnext
      · rename_i hqueue
        cases hnext
        exact ⟨h, .inl hqueue⟩
      · rename_i current depth queue hqueue
        split at hnext
        · rename_i hedges
          cases hnext
          exact ⟨h, .inr hedges⟩
        · rw [hqueue] at h hfuel
          cases hstep : r.expandNext graph current depth { state with queue := queue } with
          | error raised =>
              rw [hstep] at hnext
              cases hnext
          | ok middle =>
              rw [hstep] at hnext
              have hadvance := @expandNext_advance r seeds known _ graph current depth
                { state with queue := queue } middle h.dequeue
                (h.queued (current, depth) List.mem_cons_self) hstep
              have hpushed := hadvance.pushed
              simp only [List.length_cons] at hfuel hpushed
              exact ih hadvance.linked (hadvance.bounded hnodes) (by omega) hnext

end Steps

/-- After the expansion all candidates are still there, and all lead back to a root. -/
theorem expand_spec [RankingLibrary] {r : HybridRetriever}
    {seeds candidates expanded : List Candidate} {diagnostics diagnostics' : List String}
    (hnodup : (candidates.map Candidate.key).Nodup)
    (hparent : ∀ candidate ∈ candidates, candidate.parentId = none)
    (hseeds : ∀ seed ∈ seeds, ∃ candidate ∈ candidates, candidate.key = seed.key)
    (hmarked : ∀ candidate ∈ candidates, candidate.isSeed = true →
      candidate.key ∈ seeds.map Candidate.key)
    (h : r.expand seeds candidates diagnostics = .ok (expanded, diagnostics')) :
    (expanded.map Candidate.key).Nodup ∧
      (∀ key ∈ candidates.map Candidate.key, key ∈ expanded.map Candidate.key) ∧
      ∀ candidate ∈ expanded, Rooted expanded candidate.key := by
  have hroot {cs : List Candidate} {candidate : Candidate} (hmem : candidate ∈ cs)
      (hisRoot : isRoot candidate = true) : Rooted cs candidate.key :=
    ⟨_, List.mem_map_of_mem (List.mem_filter.mpr ⟨hmem, hisRoot⟩), .refl⟩
  have hall : ∀ candidate ∈ candidates, isRoot candidate = true := fun candidate hmem => by
    simp [isRoot, hparent candidate hmem]
  have hsame : (candidates.map Candidate.key).Nodup ∧
      (∀ key ∈ candidates.map Candidate.key, key ∈ candidates.map Candidate.key) ∧
      ∀ candidate ∈ candidates, Rooted candidates candidate.key :=
    ⟨hnodup, fun _ => id, fun candidate hmem => hroot hmem (hall candidate hmem)⟩
  unfold expand at h
  split at h
  · cases h
    exact hsame
  split at h
  · cases h
    exact hsame
  · rename_i graph _ _
    simp only [bind, Except.bind] at h
    split at h
    · cases h
    · rename_i state hloop
      cases h
      have hstart : Linked (seeds.map Candidate.key) (candidates.map Candidate.key) candidates
          (seeds.map fun seed => (seed, 0)) (seeds.map Candidate.key) := by
        refine ⟨hnodup, fun _ => id, fun _ => id, hmarked, ?_, ?_, ?_, ?_⟩
        · exact fun candidate hmem hchild => absurd (hparent candidate hmem) hchild
        · intro candidate hmem parent hsome
          rw [hparent candidate hmem] at hsome
          cases hsome
        · intro key hkey
          obtain ⟨seed, hseed, rfl⟩ := List.mem_map.mp hkey
          obtain ⟨candidate, hmem, hcandidate⟩ := hseeds seed hseed
          exact hcandidate ▸ hroot hmem (hall candidate hmem)
        · intro entry hentry
          obtain ⟨seed, hseed, rfl⟩ := List.mem_map.mp hentry
          exact List.mem_map_of_mem hseed
      obtain ⟨hlinked, -⟩ := expandLoop_spec _ (by exact hstart) (Nat.zero_le _)
        (by simp) hloop
      refine ⟨hlinked.nodup, hlinked.keeps, fun candidate hmem => ?_⟩
      by_cases hchild : candidate.parentId = none
      · exact hroot hmem (by simp [isRoot, hchild])
      · exact hlinked.rooted _ (hlinked.childVisited candidate hmem hchild)

end Expansion

end HybridRetriever

end CppContextEngine.Retrieval
