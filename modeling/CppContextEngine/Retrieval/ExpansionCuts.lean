import CppContextEngine.Retrieval.ExpansionTree
import CppContextEngine.Retrieval.WholeAnswer

/-!
# The cuts of a graph expansion

The loop grows a tree below the seeds, level by level and within its budgets.
It reports the edges of a node that its budgets cut off, but not the calls that
the lookup of call evidence had cut off before.
-/

namespace CppContextEngine.Retrieval

open CppContextEngine.Foundation CppContextEngine.Models

/-! ## Lineages -/

section Lineage

variable (edges : GraphEdge → Prop) (seeds : List Candidate)

/-- The candidates above a reached one, up to its seed, and the edges its path goes over. -/
inductive Lineage : Candidate → List Candidate → Prop where
  | seed {seed : Candidate} (hseed : seed ∈ seeds) (hpath : seed.path = []) : Lineage seed []
  | hop {parent candidate : Candidate} {chain : List Candidate} {edge : GraphEdge}
      (above : Lineage parent chain) (hedge : edges edge)
      (hbuild : edge.buildVariant = parent.node.1 ∧ candidate.node.1 = parent.node.1)
      (hjoins : Joins edge parent.node.2 candidate.node.2)
      (hpath : candidate.path =
        parent.path ++ [⟨edge.sourceId, edge.targetId, edge.relation⟩])
      (hparent : candidate.parentId = some parent.key)
      (hfresh : candidate.key ∉ (parent :: chain).map Candidate.key) :
      Lineage candidate (parent :: chain)

variable {edges : GraphEdge → Prop} {seeds : List Candidate} {candidate : Candidate}
  {chain : List Candidate}

theorem Lineage.length_path (h : Lineage edges seeds candidate chain) :
    candidate.path.length = chain.length := by
  induction h with
  | seed _ hpath => simp [hpath]
  | hop _ _ _ _ hpath _ _ ih => simp [hpath, ih]

theorem Lineage.nodup (h : Lineage edges seeds candidate chain) :
    ((candidate :: chain).map Candidate.key).Nodup := by
  induction h with
  | seed => simp
  | hop _ _ _ _ _ _ hfresh ih => exact List.nodup_cons.mpr ⟨hfresh, ih⟩

end Lineage

namespace HybridRetriever

variable {r : HybridRetriever} {graph : GraphAdapter} {contents : GraphContents}

/-! ## The tree during the loop -/

/-- Fresh candidates under distinct keys, and the seeds among them. -/
structure Seeded (seeds candidates : List Candidate) : Prop where
  distinct : (candidates.map Candidate.key).Nodup
  fresh : ∀ candidate ∈ candidates, candidate.path = [] ∧ candidate.parentId = none
  listed : ∀ seed ∈ seeds, seed ∈ candidates

/-- The state before the first round of the loop. -/
def startOf (seeds candidates : List Candidate) (diagnostics : List String) : Expansion where
  candidates := candidates
  queue := seeds.map fun seed => (seed, 0)
  visited := seeds.map Candidate.key
  diagnostics := diagnostics

def placed (entry : Candidate × Nat) : Node × Nat := (entry.1.node, entry.2)

/-- No diagnostic was added, and no budget is noted as exhausted. -/
def Quiet (diagnostics : List String) (state : Expansion) : Prop :=
  state.diagnostics = diagnostics ∧ state.budgetExhausted = false

section Tree

variable (service : r.Service graph contents) (catalog : r.Catalog)
  (seeds candidates : List Candidate) (diagnostics : List String)

/-- One hop that the expansion can see. -/
abbrev shownHop : Node → Node → Prop := catalog.Hop service.Shown

/-- The loop has reached `reached` in this order; `front` is what it is working on. -/
structure Tree (front reached : List (Candidate × Nat)) (state : Expansion) : Prop where
  visited : state.visited = reached.map fun entry => entry.1.key
  levels : Levels (shownHop service catalog) (seeds.map Candidate.node) r.hardDepth
    (reached.map placed) ((front ++ state.queue).map placed)
  waits : ∀ entry ∈ front ++ state.queue, entry ∈ reached
  kept : ∀ entry ∈ reached, entry.1 ∈ state.candidates
  distinct : (state.candidates.map Candidate.key).Nodup
  lineage : ∀ entry ∈ reached, ∃ chain,
    Lineage (StoredEdge r.config.relations contents) seeds entry.1 chain ∧
      chain.length = entry.2 ∧ ∀ above ∈ chain, above ∈ reached.map Prod.fst
  origin : ∀ candidate ∈ state.candidates,
    candidate ∈ candidates ∨ candidate ∈ reached.map Prod.fst
  given : ∀ candidate ∈ candidates, ∃ other ∈ state.candidates, other.node = candidate.node
  known : ∀ candidate ∈ state.candidates, catalog.Known candidates candidate.hit.symbol
  count : ∃ below, reached = seeds.map (fun seed => (seed, 0)) ++ below ∧
    below.length = state.expandedNodes
  nodes : state.expandedNodes ≤ r.config.graphNodeBudget
  edges : state.edgeCount ≤ r.config.graphEdgeBudget
  lines : ∃ lines, state.diagnostics = diagnostics ++ lines
  done : Quiet diagnostics state → ∀ entry ∈ reached, entry ∈ front ++ state.queue ∨
    HandedOn (shownHop service catalog) r.hardDepth (reached.map placed) (placed entry)

variable {service : r.Service graph contents} {catalog : r.Catalog}
  {seeds candidates : List Candidate} {diagnostics : List String}
  {front reached : List (Candidate × Nat)} {state : Expansion}

/-- The loop starts with the seeds. -/
theorem Tree.start (hseeded : Seeded seeds candidates) :
    Tree service catalog seeds candidates diagnostics [] (seeds.map fun seed => (seed, 0))
      (startOf seeds candidates diagnostics) where
  visited := by simp [startOf, Function.comp_def]
  levels := by
    simpa [startOf, Function.comp_def, placed] using
      @Levels.start _ (shownHop service catalog) (seeds.map Candidate.node) r.hardDepth
  waits entry hentry := by simpa [startOf] using hentry
  kept entry hentry := by
    obtain ⟨seed, hseed, rfl⟩ := List.mem_map.mp hentry
    exact hseeded.listed seed hseed
  distinct := hseeded.distinct
  lineage entry hentry := by
    obtain ⟨seed, hseed, rfl⟩ := List.mem_map.mp hentry
    have hpath := (hseeded.fresh seed (hseeded.listed seed hseed)).1
    exact ⟨[], .seed hseed hpath, rfl, by simp⟩
  origin candidate hmem := .inl hmem
  given candidate hmem := ⟨candidate, hmem, rfl⟩
  known candidate hmem := .inl ⟨candidate, hmem, rfl⟩
  count := ⟨[], by simp [startOf]⟩
  nodes := Nat.zero_le _
  edges := Nat.zero_le _
  lines := ⟨[], by simp [startOf]⟩
  done _ entry hentry := .inl (by simpa [startOf] using hentry)

theorem Tree.mem_visited (h : Tree service catalog seeds candidates diagnostics front reached state)
    {key : String} : key ∈ state.visited ↔ ∃ entry ∈ reached, entry.1.key = key := by
  rw [h.visited]
  simp

/-- The loop takes the next node off the queue. -/
theorem Tree.pop {entry : Candidate × Nat} {queue : List (Candidate × Nat)}
    (h : Tree service catalog seeds candidates diagnostics [] reached state)
    (hqueue : state.queue = entry :: queue) :
    Tree service catalog seeds candidates diagnostics [entry] reached
      { state with queue := queue } := by
  have hwaiting : [] ++ state.queue = [entry] ++ queue := by simp [hqueue]
  exact { h with
    levels := hwaiting ▸ h.levels
    waits := hwaiting ▸ h.waits
    done := hwaiting ▸ h.done }

/-- A node is done with once its hops are handed on, or a cut was noted. -/
theorem Tree.finish {entry : Candidate × Nat}
    (h : Tree service catalog seeds candidates diagnostics [entry] reached state)
    (hdone : Quiet diagnostics state →
      HandedOn (shownHop service catalog) r.hardDepth (reached.map placed) (placed entry)) :
    Tree service catalog seeds candidates diagnostics [] reached state :=
  { h with
    levels := h.levels.pop
    waits := fun other hother => h.waits other (List.mem_cons_of_mem _ hother)
    done := by
      intro hquiet other hother
      rcases h.done hquiet other hother with hwaits | hdone'
      · rcases List.mem_cons.mp hwaits with rfl | hwaits
        · exact .inr (hdone hquiet)
        · exact .inl hwaits
      · exact .inr hdone' }

/-- Counting an edge, noting a cut and adding diagnostics leave the tree as it is. -/
theorem Tree.note {next : Expansion}
    (h : Tree service catalog seeds candidates diagnostics front reached state)
    (hsame : next.candidates = state.candidates ∧ next.queue = state.queue ∧
      next.visited = state.visited ∧ next.expandedNodes = state.expandedNodes)
    (hedges : next.edgeCount ≤ r.config.graphEdgeBudget)
    (hlines : ∃ lines, next.diagnostics = state.diagnostics ++ lines)
    (hnoted : next.budgetExhausted = false → state.budgetExhausted = false) :
    Tree service catalog seeds candidates diagnostics front reached next := by
  obtain ⟨hcandidates, hqueue, hvisited, hnodes⟩ := hsame
  obtain ⟨lines, hlines⟩ := hlines
  obtain ⟨before, hbefore⟩ := h.lines
  refine ⟨?_, ?_, ?_, ?_, ?_, h.lineage, ?_, ?_, ?_, ?_, ?_, hedges, ⟨before ++ lines, ?_⟩, ?_⟩
  · rw [hvisited, h.visited]
  · rw [hqueue]
    exact h.levels
  · rw [hqueue]
    exact h.waits
  · rw [hcandidates]
    exact h.kept
  · rw [hcandidates]
    exact h.distinct
  · rw [hcandidates]
    exact h.origin
  · rw [hcandidates]
    exact h.given
  · rw [hcandidates]
    exact h.known
  · rw [hnodes]
    exact h.count
  · rw [hnodes]
    exact h.nodes
  · rw [hlines, hbefore, List.append_assoc]
  · rw [hqueue]
    intro hquiet
    apply h.done
    refine ⟨?_, hnoted hquiet.2⟩
    have hnil : before ++ lines = [] := by
      have hall := hquiet.1
      rw [hlines, hbefore, List.append_assoc] at hall
      simpa using hall
    rw [hbefore, (List.append_eq_nil_iff.mp hnil).1, List.append_nil]

end Tree

theorem nodup_putCandidate {candidates : List Candidate} {candidate : Candidate}
    (h : (candidates.map Candidate.key).Nodup) :
    ((putCandidate candidates candidate).map Candidate.key).Nodup := by
  rw [map_key_putCandidate]
  split
  · exact h
  · rename_i hfresh
    simpa using List.nodup_append.mpr ⟨h, List.nodup_singleton candidate.key, by simpa using hfresh⟩

/-! ## One edge -/

section Edges

variable [RankingLibrary] {service : r.Service graph contents} {catalog : r.Catalog}
  {seeds candidates : List Candidate} {diagnostics : List String}
  {reached : List (Candidate × Nat)} {state next : Expansion} {current : Candidate}
  {depth degree : Nat} {evidence : CallEvidence} {edge : GraphEdge}
  {prefetched : List ((String × String) × Option CodeSymbol)}

omit [RankingLibrary] in
theorem node_eq_of_symbolAt {build id : String} {symbol : CodeSymbol} {candidate : Candidate}
    (hsymbol : catalog.symbolAt build id = some symbol) (hkeys : catalog.KeysName candidates)
    (hknown : catalog.Known candidates candidate.hit.symbol)
    (hkey : candidate.key = evidenceKey symbol) : candidate.node = (build, id) := by
  obtain ⟨hbuild, hid⟩ := catalog.named build id symbol hsymbol
  obtain ⟨hsameBuild, hsameId⟩ :=
    hkeys.same _ _ hknown (.inr ⟨build, id, hsymbol⟩) hkey
  unfold Candidate.node
  rw [hsameBuild, hsameId, hbuild, hid]

/-- The candidate that a visited symbol becomes, which stands for a symbol known under its key. -/
theorem visitSymbol_eq (h : Tree service catalog seeds candidates diagnostics [(current, depth)]
    reached state) {build id : String} {symbol : CodeSymbol}
    (hsymbol : catalog.symbolAt build id = some symbol) :
    ∃ candidate : Candidate,
      r.visitSymbol current depth degree evidence edge symbol state =
          { state with
            candidates := putCandidate state.candidates candidate
            queue := state.queue ++ [(candidate, depth + 1)]
            visited := state.visited ++ [candidate.key]
            expandedNodes := state.expandedNodes + 1 } ∧
        candidate.key = evidenceKey symbol ∧
        catalog.Known candidates candidate.hit.symbol ∧
        candidate.path = current.path ++ [⟨edge.sourceId, edge.targetId, edge.relation⟩] ∧
        candidate.parentId = some current.key := by
  have hkey := @key_reach r _ evidence current depth degree edge symbol state.candidates
  have hnew : catalog.Known candidates symbol := .inr ⟨build, id, hsymbol⟩
  refine ⟨r.reach current depth degree evidence edge symbol
    (state.candidates.find? fun candidate => candidate.key = evidenceKey symbol), ?_, hkey, ?_⟩
  · rw [hkey]
    rfl
  · cases hfound : state.candidates.find? fun candidate => candidate.key = evidenceKey symbol with
    | none => exact ⟨hnew, rfl, rfl⟩
    | some candidate =>
        refine ⟨?_, rfl, rfl⟩
        simp only [reach]
        split
        · exact hnew
        · exact h.known candidate (List.mem_of_find?_eq_some hfound)

/-- The symbol behind an edge joins the tree below the current node. -/
theorem Tree.visitSymbol (hkeys : catalog.KeysName candidates)
    (h : Tree service catalog seeds candidates diagnostics [(current, depth)] reached state)
    (hdepth : depth < r.hardDepth) (hat : service.At current.hit.symbol edge)
    {other : String} (hjoins : Joins edge current.hit.symbol.text.id.val other)
    {symbol : CodeSymbol} (hsymbol : catalog.symbolAt edge.buildVariant other = some symbol)
    (hnew : evidenceKey symbol ∉ state.visited)
    (hbudget : state.expandedNodes < r.config.graphNodeBudget) :
    ∃ candidate : Candidate, candidate.node = (edge.buildVariant, other) ∧
      Tree service catalog seeds candidates diagnostics [(current, depth)]
        (reached ++ [(candidate, depth + 1)])
        (r.visitSymbol current depth degree evidence edge symbol state) := by
  obtain ⟨candidate, hstep, hkey, hknown, hpath, hparent⟩ :=
    @visitSymbol_eq r graph contents _ service catalog seeds candidates diagnostics reached state
      current depth degree evidence edge h _ _ _ hsymbol
  have hnode : candidate.node = (edge.buildVariant, other) :=
    node_eq_of_symbolAt hsymbol hkeys hknown hkey
  have hcurrent : (current, depth) ∈ reached := h.waits _ (by simp)
  have hne : ∀ entry ∈ reached, entry.1.key ≠ candidate.key := by
    intro entry hentry hsame
    exact hnew (h.mem_visited.mpr ⟨entry, hentry, hsame.trans hkey⟩)
  have hplaced : (reached ++ [(candidate, depth + 1)]).map placed =
      reached.map placed ++ [((edge.buildVariant, other), depth + 1)] := by
    simp [placed, hnode]
  rw [hstep]
  refine ⟨candidate, hnode, ?_, ?_, ?_, ?_, ?_, ?_, ?_, ?_, ?_, ?_, ?_, h.edges, h.lines, ?_⟩
  · simp [h.visited]
  · have hhop : shownHop service catalog current.node (edge.buildVariant, other) :=
      ⟨edge, hat.1, hat.2, hat.2, hjoins, by simp [hsymbol]⟩
    have hpush := @Levels.push _ _ _ _ _ _ (current.node, depth) h.levels
      (edge.buildVariant, other) hdepth hhop
    rw [hplaced]
    simpa [placed, hnode] using hpush
  · intro entry hentry
    have hcases : entry ∈ [(current, depth)] ++ state.queue ∨ entry = (candidate, depth + 1) := by
      simpa [or_assoc] using hentry
    rcases hcases with hold | rfl
    · exact List.mem_append_left _ (h.waits entry hold)
    · simp
  · intro entry hentry
    rcases List.mem_append.mp hentry with hold | hnewest
    · exact mem_putCandidate.mpr (.inr ⟨h.kept entry hold, hne entry hold⟩)
    · rw [List.mem_singleton.mp hnewest]
      exact mem_putCandidate.mpr (.inl rfl)
  · exact nodup_putCandidate h.distinct
  · intro entry hentry
    rcases List.mem_append.mp hentry with hold | hnewest
    · obtain ⟨chain, hlineage, hlength, hchain⟩ := h.lineage entry hold
      exact ⟨chain, hlineage, hlength, fun above habove => by simp [hchain above habove]⟩
    · rw [List.mem_singleton.mp hnewest]
      obtain ⟨chain, hlineage, hlength, hchain⟩ := h.lineage _ hcurrent
      have hinside : ∀ above ∈ current :: chain, above ∈ reached.map Prod.fst := by
        intro above habove
        rcases List.mem_cons.mp habove with rfl | habove
        · exact List.mem_map_of_mem hcurrent
        · exact hchain above habove
      refine ⟨current :: chain, .hop hlineage hat.1.stored ?_ ?_ hpath hparent ?_, ?_, ?_⟩
      · exact ⟨hat.2, (congrArg Prod.fst hnode).trans hat.2⟩
      · rw [hnode]
        exact hjoins
      · intro hmem
        obtain ⟨above, habove, hsame⟩ := List.mem_map.mp hmem
        obtain ⟨entry, hentry, rfl⟩ := List.mem_map.mp (hinside above habove)
        exact hne entry hentry hsame
      · simp [hlength]
      · intro above habove
        simp [hinside above habove]
  · intro other hother
    rcases mem_putCandidate.mp hother with rfl | ⟨hold, -⟩
    · right
      simp
    · rcases h.origin other hold with hgiven | hreached
      · exact .inl hgiven
      · right
        simp [hreached]
  · intro given hgiven
    obtain ⟨same, hsame, hsameNode⟩ := h.given given hgiven
    by_cases hreplaced : same.key = candidate.key
    · refine ⟨candidate, mem_putCandidate.mpr (.inl rfl), ?_⟩
      rw [hnode, ← hsameNode]
      exact (node_eq_of_symbolAt hsymbol hkeys (h.known same hsame)
        (hreplaced.trans hkey)).symm
    · exact ⟨same, mem_putCandidate.mpr (.inr ⟨hsame, hreplaced⟩), hsameNode⟩
  · intro other hother
    rcases mem_putCandidate.mp hother with rfl | ⟨hold, -⟩
    · exact hknown
    · exact h.known other hold
  · obtain ⟨below, hbelow, hlength⟩ := h.count
    refine ⟨below ++ [(candidate, depth + 1)], ?_, ?_⟩
    · rw [hbelow, List.append_assoc]
    · simp [hlength]
  · exact hbudget
  · intro hquiet entry hentry
    rcases List.mem_append.mp hentry with hold | hnewest
    · rw [hplaced]
      rcases h.done hquiet entry hold with hwaits | hdone
      · left
        rw [← List.append_assoc]
        exact List.mem_append_left _ hwaits
      · exact .inr (hdone.append _)
    · left
      simp [List.mem_singleton.mp hnewest]

/-- The node at the other end of the edge is reached, when it is there at all. -/
def Covered (catalog : r.Catalog) (current : Candidate) (reached : List (Candidate × Nat))
    (edge : GraphEdge) : Prop :=
  ∀ other, Joins edge current.hit.symbol.text.id.val other →
    (catalog.symbolAt edge.buildVariant other).isSome →
      ∃ entry ∈ reached, entry.1.node = (edge.buildVariant, other)

omit [RankingLibrary] in
theorem Covered.append (h : Covered catalog current reached edge) (more : List (Candidate × Nat)) :
    Covered catalog current (reached ++ more) edge := by
  intro other hjoins hthere
  obtain ⟨entry, hentry, hnode⟩ := h other hjoins hthere
  exact ⟨entry, List.mem_append_left _ hentry, hnode⟩

omit [RankingLibrary] in
/-- A key that was visited stands for the node itself. -/
theorem Tree.node_of_visited (hkeys : catalog.KeysName candidates)
    (h : Tree service catalog seeds candidates diagnostics [(current, depth)] reached state)
    {build id : String} {symbol : CodeSymbol} (hsymbol : catalog.symbolAt build id = some symbol)
    (hvisited : build ++ ":" ++ id ∈ state.visited ∨ evidenceKey symbol ∈ state.visited) :
    ∃ entry ∈ reached, entry.1.node = (build, id) := by
  rcases hvisited with hspelled | hvisited
  · obtain ⟨entry, hentry, hkey⟩ := h.mem_visited.mp hspelled
    have hknown := h.known _ (h.kept entry hentry)
    obtain ⟨hbuild, hid⟩ := hkeys.spelled _ build id hknown (by simp [hsymbol]) hkey
    exact ⟨entry, hentry, Prod.ext hbuild hid⟩
  · obtain ⟨entry, hentry, hkey⟩ := h.mem_visited.mp hvisited
    exact ⟨entry, hentry,
      node_eq_of_symbolAt hsymbol hkeys (h.known _ (h.kept entry hentry)) hkey⟩

/-- What the loop over the edges makes of a tree. -/
structure Follows (service : r.Service graph contents) (catalog : r.Catalog)
    (seeds candidates : List Candidate) (diagnostics : List String) (current : Candidate × Nat)
    (reached : List (Candidate × Nat)) (edges : List GraphEdge) (state next : Expansion) :
    Prop where
  noted : next.diagnostics = state.diagnostics ∧
    (next.budgetExhausted = false → state.budgetExhausted = false)
  tree : ∃ more, Tree service catalog seeds candidates diagnostics [current] (reached ++ more)
    next ∧ (next.budgetExhausted = false →
      ∀ edge ∈ edges, Covered catalog current.1 (reached ++ more) edge)

theorem Tree.visitEdge (hkeys : catalog.KeysName candidates)
    (h : Tree service catalog seeds candidates diagnostics [(current, depth)] reached state)
    (hdepth : depth < r.hardDepth) (hat : service.At current.hit.symbol edge)
    (hfetch : ∀ neighbor, neighborOf current.hit.symbol edge = some neighbor → ∀ symbol,
      r.fetchSymbol prefetched edge.buildVariant neighbor = .ok symbol →
        symbol = catalog.symbolAt edge.buildVariant neighbor)
    (hbudget : state.expandedNodes < r.config.graphNodeBudget)
    (hnext : r.visitEdge current depth degree evidence prefetched edge state = .ok next) :
    Follows service catalog seeds candidates diagnostics (current, depth) reached [edge] state
      next := by
  have hstay (hcovered : Covered catalog current reached edge) :
      Follows service catalog seeds candidates diagnostics (current, depth) reached [edge] state
        state :=
    ⟨⟨rfl, id⟩, [], by simpa using h, by simpa using fun _ => hcovered⟩
  unfold HybridRetriever.visitEdge at hnext
  split at hnext
  · rename_i hnone
    cases hnext
    apply hstay
    intro other hjoins
    rw [neighborOf_of_joins hjoins] at hnone
    cases hnone
  · rename_i neighbor hneighbor
    have hends : ∀ other, Joins edge current.hit.symbol.text.id.val other → other = neighbor := by
      intro other hjoins
      rw [neighborOf_of_joins hjoins] at hneighbor
      exact Option.some.inj hneighbor
    split at hnext
    · rename_i hvisited
      cases hnext
      apply hstay
      intro other hjoins hthere
      obtain ⟨symbol, hsymbol⟩ := Option.isSome_iff_exists.mp hthere
      rw [hends other hjoins] at hsymbol ⊢
      exact h.node_of_visited hkeys hsymbol (.inl hvisited)
    · obtain ⟨found, hfound, hnext⟩ := bind_eq_ok.mp hnext
      have hsame := hfetch neighbor hneighbor found hfound
      split at hnext
      · cases hnext
        apply hstay
        intro other hjoins hthere
        rw [hends other hjoins, ← hsame] at hthere
        cases hthere
      · rename_i symbol
        split at hnext
        · rename_i hvisited
          cases hnext
          apply hstay
          intro other hjoins _
          rw [hends other hjoins]
          exact h.node_of_visited hkeys hsame.symm (.inr hvisited)
        · rename_i hnew
          cases hnext
          obtain ⟨candidate, hnode, htree⟩ := @Tree.visitSymbol r graph contents _ service catalog
            seeds candidates diagnostics reached state current depth degree evidence edge hkeys h
            hdepth hat neighbor (joins_of_neighborOf hneighbor) symbol hsame.symm hnew hbudget
          refine ⟨⟨rfl, id⟩, [(candidate, depth + 1)], htree, ?_⟩
          intro _ followed hfollowed other hjoins _
          rw [List.mem_singleton.mp hfollowed] at hjoins ⊢
          rw [hends other hjoins]
          exact ⟨(candidate, depth + 1), by simp, hnode⟩

theorem Tree.visitEdges (hkeys : catalog.KeysName candidates) (hdepth : depth < r.hardDepth)
    (edges : List GraphEdge) : ∀ {reached : List (Candidate × Nat)} {state next : Expansion},
    Tree service catalog seeds candidates diagnostics [(current, depth)] reached state →
      (∀ edge ∈ edges, service.At current.hit.symbol edge) →
      (∀ edge ∈ edges, ∀ neighbor, neighborOf current.hit.symbol edge = some neighbor →
        ∀ symbol, r.fetchSymbol prefetched edge.buildVariant neighbor = .ok symbol →
          symbol = catalog.symbolAt edge.buildVariant neighbor) →
      r.visitEdges current depth degree evidence prefetched edges state = .ok next →
      Follows service catalog seeds candidates diagnostics (current, depth) reached edges state
        next := by
  induction edges with
  | nil =>
      intro reached state next h _ _ hnext
      cases hnext
      exact ⟨⟨rfl, id⟩, [], by simpa using h, by simp⟩
  | cons edge edges ih =>
      intro reached state next h hat hfetch hnext
      unfold HybridRetriever.visitEdges at hnext
      split at hnext
      · cases hnext
        refine ⟨⟨rfl, by simp⟩, [], ?_, by simp⟩
        rw [List.append_nil]
        exact h.note ⟨rfl, rfl, rfl, rfl⟩ h.edges ⟨[], by simp⟩ (by simp)
      · rename_i hbudget
        rw [not_or, Nat.not_le, Nat.not_le] at hbudget
        obtain ⟨middle, hstep, hnext⟩ := bind_eq_ok.mp hnext
        have hcounted : Tree service catalog seeds candidates diagnostics [(current, depth)]
            reached { state with edgeCount := state.edgeCount + 1 } :=
          h.note ⟨rfl, rfl, rfl, rfl⟩ hbudget.1 ⟨[], by simp⟩ id
        obtain ⟨hnoted, more, hmiddle, hcovered⟩ := hcounted.visitEdge hkeys hdepth
          (hat edge List.mem_cons_self) (hfetch edge List.mem_cons_self) hbudget.2 hstep
        obtain ⟨hlater, rest, htree, hall⟩ := ih hmiddle
          (fun other hother => hat other (List.mem_cons_of_mem _ hother))
          (fun other hother => hfetch other (List.mem_cons_of_mem _ hother)) hnext
        refine ⟨⟨hlater.1.trans hnoted.1, fun hquiet => hnoted.2 (hlater.2 hquiet)⟩,
          more ++ rest, ?_⟩
        rw [← List.append_assoc]
        refine ⟨htree, fun hquiet followed hfollowed => ?_⟩
        rcases List.mem_cons.mp hfollowed with rfl | hfollowed
        · exact (hcovered (hlater.2 hquiet) followed List.mem_cons_self).append rest
        · exact hall hquiet followed hfollowed

end Edges

/-! ## The loop over the queue -/

section Loop

variable [RankingLibrary] {service : r.Service graph contents} {catalog : r.Catalog}
  {seeds candidates : List Candidate} {diagnostics : List String}
  {reached : List (Candidate × Nat)} {state next : Expansion} {current : Candidate} {depth : Nat}

omit [RankingLibrary] in
/-- The stored edges at a node come cut at the limit, or the lookup fails. -/
theorem rawEdges_cases (service : r.Service graph contents) (current : CodeSymbol) :
    r.rawEdges graph current = .ok ((service.listed current.text.id.val
        current.buildVariant).take (r.config.perNodeEdgeBudget + 1)) ∨
      ∃ raised, r.rawEdges graph current = .error raised := by
  unfold rawEdges
  rcases service.neighbors current.text.id.val current.buildVariant
    (r.config.perNodeEdgeBudget + 1) with hok | ⟨name, herror⟩
  · simp [hok]
  · simp [herror]

omit [RankingLibrary] in
theorem gatherCalls_lines (service : r.Service graph contents) (current : CodeSymbol)
    (diagnostics : List String) :
    ∃ lines, (r.gatherCalls graph current diagnostics).diagnostics = diagnostics ++ lines := by
  by_cases hcalls : GraphRelation.calls ∈ r.config.relations
  · exact (gatherCalls_gathered service current diagnostics hcalls).lines
  · rw [gatherCalls_none graph current diagnostics hcalls]
    exact ⟨[], by simp⟩

omit [RankingLibrary] in
/-- As long as nothing is reported, no part of the loop has reported anything. -/
theorem Tree.quiet {front : List (Candidate × Nat)}
    (h : Tree service catalog seeds candidates diagnostics front reached state)
    {lines : List String} (hquiet : state.diagnostics ++ lines = diagnostics) :
    state.diagnostics = diagnostics ∧ lines = [] := by
  obtain ⟨before, hbefore⟩ := h.lines
  have hnil : before ++ lines = [] := by
    rw [hbefore, List.append_assoc] at hquiet
    simpa using hquiet
  obtain ⟨rfl, rfl⟩ := List.append_eq_nil_iff.mp hnil
  simpa using hbefore

omit [RankingLibrary] in
/-- A node whose edges are all covered has handed on its hops. -/
theorem Tree.handedOn
    (h : Tree service catalog seeds candidates diagnostics [(current, depth)] reached state)
    (hcovered : ∀ edge, service.At current.hit.symbol edge → Covered catalog current reached edge) :
    HandedOn (shownHop service catalog) r.hardDepth (reached.map placed)
      (placed (current, depth)) := by
  apply h.levels.handedOn
  rintro ⟨build, id⟩ ⟨edge, hshown, hbuild, rfl, hjoins, hthere⟩
  have hat : service.At current.hit.symbol edge := ⟨hshown, hbuild⟩
  obtain ⟨entry, hentry, hnode⟩ := hcovered edge hat id hjoins (by rw [hbuild]; exact hthere)
  refine ⟨placed entry, List.mem_map_of_mem hentry, ?_⟩
  exact hnode.trans (Prod.ext hbuild rfl)

theorem Tree.expandNode (hkeys : catalog.KeysName candidates) (hdepth : depth < r.hardDepth)
    (h : Tree service catalog seeds candidates diagnostics [(current, depth)] reached state)
    (hnext : r.expandNode graph current depth state = .ok next) :
    ∃ more, Tree service catalog seeds candidates diagnostics [] (reached ++ more) next := by
  unfold HybridRetriever.expandNode at hnext
  rcases rawEdges_cases service current.hit.symbol with hraw | ⟨raised, herror⟩
  · rw [hraw] at hnext
    simp only at hnext
    set raw := (service.listed current.hit.symbol.text.id.val
      current.hit.symbol.buildVariant).take (r.config.perNodeEdgeBudget + 1) with hrawEq
    set evidence := r.gatherCalls graph current.hit.symbol state.diagnostics with hevidence
    obtain ⟨lines, hlines⟩ := gatherCalls_lines service current.hit.symbol state.diagnostics
    obtain ⟨prefetched, hprefetch, hnext⟩ := bind_eq_ok.mp hnext
    have hnoted : Tree service catalog seeds candidates diagnostics [(current, depth)] reached
        { state with
          diagnostics := evidence.diagnostics
          budgetExhausted := state.budgetExhausted ||
            decide (r.config.perNodeEdgeBudget < (r.relevantEdges raw evidence).length) } :=
      h.note ⟨rfl, rfl, rfl, rfl⟩ h.edges ⟨lines, hlines⟩
        fun hopen => (Bool.or_eq_false_iff.mp hopen).1
    obtain ⟨hsame, more, htree, hcovered⟩ := hnoted.visitEdges hkeys hdepth _
      (fun edge hedge => relevantEdges_at hrawEq (List.mem_of_mem_take hedge))
      (fun edge hedge neighbor hneighbor symbol hfetch =>
        fetchSymbol_eq catalog hprefetch hedge hneighbor hfetch) hnext
    refine ⟨more, htree.finish fun hquiet => htree.handedOn fun edge hat => ?_⟩
    have hbudget : (r.relevantEdges raw evidence).length ≤ r.config.perNodeEdgeBudget := by
      simpa using (Bool.or_eq_false_iff.mp (hsame.2 hquiet.2)).2
    have hsilent : evidence.diagnostics = state.diagnostics := by
      have hall := hsame.1.symm.trans hquiet.1
      rw [hlines] at hall
      rw [hlines, (h.quiet hall).2, List.append_nil]
    intro other hjoins
    apply hcovered hquiet.2 edge ?_ other hjoins
    rw [List.take_of_length_le hbudget]
    exact mem_relevantEdges_of_quiet hrawEq hsilent hbudget hat hjoins
  · rw [herror] at hnext
    cases hnext
    refine ⟨[], ?_⟩
    rw [List.append_nil]
    have hnoted : Tree service catalog seeds candidates diagnostics [(current, depth)] reached
        { state with
          diagnostics := state.diagnostics ++ ["graph expansion failed for " ++
            current.hit.symbol.text.id ++ ": " ++ raised.name] } :=
      h.note ⟨rfl, rfl, rfl, rfl⟩ h.edges ⟨_, rfl⟩ id
    apply hnoted.finish
    intro hquiet
    exact absurd (h.quiet hquiet.1).2 (List.cons_ne_nil _ _)

theorem Tree.expandNext (hkeys : catalog.KeysName candidates)
    (h : Tree service catalog seeds candidates diagnostics [(current, depth)] reached state)
    (hnext : r.expandNext graph current depth state = .ok next) :
    ∃ more, Tree service catalog seeds candidates diagnostics [] (reached ++ more) next := by
  unfold HybridRetriever.expandNext at hnext
  split at hnext
  · rename_i hdeep
    cases hnext
    refine ⟨[], ?_⟩
    rw [List.append_nil]
    apply h.finish
    intro _ hshallow
    exact absurd hshallow (Nat.not_lt.mpr hdeep)
  split at hnext
  · cases hnext
    refine ⟨[], ?_⟩
    rw [List.append_nil]
    have hnoted : Tree service catalog seeds candidates diagnostics [(current, depth)] reached
        { state with budgetExhausted := true } :=
      h.note ⟨rfl, rfl, rfl, rfl⟩ h.edges ⟨[], by simp⟩ (by simp)
    apply hnoted.finish
    intro hquiet
    cases hquiet.2
  · rename_i hshallow _
    exact h.expandNode hkeys (Nat.not_le.mp hshallow) hnext

theorem Tree.expandLoop (hkeys : catalog.KeysName candidates) (fuel : Nat) :
    ∀ {reached : List (Candidate × Nat)} {state next : Expansion},
      Tree service catalog seeds candidates diagnostics [] reached state →
        r.expandLoop graph fuel state = .ok next →
        ∃ more, Tree service catalog seeds candidates diagnostics [] (reached ++ more) next := by
  induction fuel with
  | zero =>
      intro reached state next h hnext
      cases hnext
      exact ⟨[], by simpa using h⟩
  | succ fuel ih =>
      intro reached state next h hnext
      unfold HybridRetriever.expandLoop at hnext
      split at hnext
      · cases hnext
        exact ⟨[], by simpa using h⟩
      · rename_i current depth queue hqueue
        split at hnext
        · cases hnext
          exact ⟨[], by simpa using h⟩
        · obtain ⟨middle, hstep, hnext⟩ := bind_eq_ok.mp hnext
          obtain ⟨more, hmiddle⟩ := (h.pop hqueue).expandNext hkeys hstep
          obtain ⟨rest, htree⟩ := ih hmiddle hnext
          exact ⟨more ++ rest, by rw [← List.append_assoc]; exact htree⟩

end Loop

/-! ## The whole expansion -/

section Expand

variable [RankingLibrary] {seeds candidates expanded : List Candidate}
  {diagnostics diagnostics' : List String}

/-- The seeds of a request are among its candidates, which are fresh. -/
theorem seeded_seeded (query : String) (limit : Nat) :
    Seeded (r.seeded query (r.fusedCandidates query limit)).1
      (r.seeded query (r.fusedCandidates query limit)).2 := by
  obtain ⟨hnodup, -, hplain, -⟩ := @fusedCandidates_spec r query limit
  refine ⟨by rw [keys_seeded]; exact hnodup, ?_, ?_⟩
  · intro candidate hcandidate
    refine ⟨?_, (seeded_candidate hplain hcandidate).1⟩
    obtain ⟨before, hbefore, rfl⟩ := List.mem_map.mp hcandidate
    obtain ⟨entry, -, rfl⟩ := List.mem_map.mp hbefore
    split <;> rfl
  · intro seed hseed
    obtain ⟨before, hbefore, rfl⟩ := List.mem_map.mp hseed
    have hmem : before ∈ r.fusedCandidates query limit := by
      have hranked := List.mem_of_mem_take hbefore
      simpa [rerank, mem_sortBy] using hranked
    refine List.mem_map.mpr ⟨before, hmem, ?_⟩
    rw [if_pos (List.mem_map_of_mem hbefore)]

/-- A candidate with the chain of candidates above it, inside the depth. -/
def Hangs (r : HybridRetriever) (contents : GraphContents) (seeds expanded : List Candidate)
    (candidate : Candidate) : Prop :=
  ∃ chain, Lineage (StoredEdge r.config.relations contents) seeds candidate chain ∧
    candidate.path.length ≤ r.hardDepth ∧ ((candidate :: chain).map Candidate.key).Nodup ∧
      ∀ above ∈ chain, above ∈ expanded

/-- One hop in the seed's build over the configured relations and calls. -/
abbrev storedHop (catalog : r.Catalog) (contents : GraphContents) : Node → Node → Prop :=
  catalog.Hop fun _ => StoredEdge r.config.relations contents

/-- All that lies within the depth of a seed is among the candidates. -/
def Complete (catalog : r.Catalog) (contents : GraphContents) (seeds expanded : List Candidate) :
    Prop :=
  ∀ node, Within (storedHop catalog contents) (seeds.map Candidate.node) r.hardDepth node →
    ∃ candidate ∈ expanded, candidate.node = node

/-- What lies within the depth does so over calls that the cut lookups give, or was found. -/
def CallsSuffice (service : r.Service graph contents) (catalog : r.Catalog)
    (seeds candidates : List Candidate) : Prop :=
  ∀ node, Within (storedHop catalog contents) (seeds.map Candidate.node) r.hardDepth node →
    Within (shownHop service catalog) (seeds.map Candidate.node) r.hardDepth node ∨
      ∃ candidate ∈ candidates, candidate.node = node

section Grown

variable {service : r.Service graph contents} {catalog : r.Catalog}
  {reached : List (Candidate × Nat)} {state : Expansion}

omit [RankingLibrary] in
theorem Tree.hangs
    (h : Tree service catalog seeds candidates diagnostics [] reached state)
    (hseeded : Seeded seeds candidates) {candidate : Candidate}
    (hmem : candidate ∈ state.candidates) (hparent : candidate.parentId ≠ none) :
    r.Hangs contents seeds state.candidates candidate := by
  rcases h.origin candidate hmem with hgiven | hreached
  · exact absurd (hseeded.fresh candidate hgiven).2 hparent
  · obtain ⟨entry, hentry, rfl⟩ := List.mem_map.mp hreached
    obtain ⟨chain, hlineage, hlength, hchain⟩ := h.lineage entry hentry
    have hlevel := (h.levels.routes _ (List.mem_map_of_mem hentry)).1
    refine ⟨chain, hlineage, ?_, hlineage.nodup, fun above habove => ?_⟩
    · rw [hlineage.length_path, hlength]
      exact hlevel
    · obtain ⟨other, hother, rfl⟩ := List.mem_map.mp (hchain above habove)
      exact h.kept other hother

omit [RankingLibrary] in
theorem Tree.given_of_plain
    (h : Tree service catalog seeds candidates diagnostics [] reached state)
    (hseeded : Seeded seeds candidates) {candidate : Candidate}
    (hmem : candidate ∈ state.candidates) (hparent : candidate.parentId = none) :
    candidate ∈ candidates := by
  rcases h.origin candidate hmem with hgiven | hreached
  · exact hgiven
  · obtain ⟨entry, hentry, rfl⟩ := List.mem_map.mp hreached
    obtain ⟨chain, hlineage, -⟩ := h.lineage entry hentry
    cases hlineage with
    | seed hseed _ => exact hseeded.listed _ hseed
    | hop _ _ _ _ _ habove _ =>
        rw [hparent] at habove
        cases habove

omit [RankingLibrary] in
/-- Only nodes that were counted get a parent. -/
theorem Tree.length_children
    (h : Tree service catalog seeds candidates diagnostics [] reached state)
    (hseeded : Seeded seeds candidates) :
    (state.candidates.filter fun candidate => candidate.parentId.isSome).length ≤
      r.config.graphNodeBudget := by
  obtain ⟨below, hbelow, hcount⟩ := h.count
  have hsubset : ∀ candidate ∈ state.candidates.filter fun candidate =>
      candidate.parentId.isSome, candidate ∈ below.map Prod.fst := by
    intro candidate hcandidate
    obtain ⟨hmem, hparent⟩ := List.mem_filter.mp hcandidate
    have hplain : ∀ given ∈ candidates, given ≠ candidate := by
      rintro given hgiven rfl
      simp [(hseeded.fresh given hgiven).2] at hparent
    rcases h.origin candidate hmem with hgiven | hreached
    · exact absurd rfl (hplain candidate hgiven)
    · rw [hbelow, List.map_append] at hreached
      rcases List.mem_append.mp hreached with hseed | hchild
      · have hseed : candidate ∈ seeds := by simpa [Function.comp_def] using hseed
        exact absurd rfl (hplain candidate (hseeded.listed candidate hseed))
      · exact hchild
  have hnodup := (List.Nodup.of_map Candidate.key h.distinct).filter
    fun candidate => candidate.parentId.isSome
  calc (state.candidates.filter fun candidate => candidate.parentId.isSome).length
      ≤ (below.map Prod.fst).length := (hnodup.subperm hsubset).length_le
    _ = state.expandedNodes := by rw [List.length_map, hcount]
    _ ≤ r.config.graphNodeBudget := h.nodes

omit [RankingLibrary] in
/-- A tree that is done without a report holds what the lookups could give. -/
theorem Tree.complete_iff
    (h : Tree service catalog seeds candidates diagnostics [] reached state)
    (hquiet : Quiet diagnostics state) (hqueue : state.queue = []) :
    Complete catalog contents seeds state.candidates ↔
      CallsSuffice service catalog seeds candidates := by
  have hdone : ∀ entry ∈ reached.map placed,
      HandedOn (shownHop service catalog) r.hardDepth (reached.map placed) entry := by
    intro entry hentry
    obtain ⟨other, hother, rfl⟩ := List.mem_map.mp hentry
    rcases h.done hquiet other hother with hwaits | hdone
    · rw [hqueue] at hwaits
      cases hwaits
    · exact hdone
  have hlevels := h.levels
  rw [hqueue] at hlevels
  have hreached (node : Node) : (∃ entry ∈ reached, entry.1.node = node) ↔
      Within (shownHop service catalog) (seeds.map Candidate.node) r.hardDepth node := by
    rw [← hlevels.within_iff hdone]
    constructor
    · rintro ⟨entry, hentry, hnode⟩
      exact ⟨placed entry, List.mem_map_of_mem hentry, hnode⟩
    · rintro ⟨level, hlevel, hnode⟩
      obtain ⟨entry, hentry, rfl⟩ := List.mem_map.mp hlevel
      exact ⟨entry, hentry, hnode⟩
  constructor
  · intro hcomplete node hnode
    obtain ⟨candidate, hmem, rfl⟩ := hcomplete node hnode
    rcases h.origin candidate hmem with hgiven | hfound
    · exact .inr ⟨candidate, hgiven, rfl⟩
    · obtain ⟨entry, hentry, rfl⟩ := List.mem_map.mp hfound
      exact .inl ((hreached _).mp ⟨entry, hentry, rfl⟩)
  · intro hsuffice node hnode
    rcases hsuffice node hnode with hshown | ⟨candidate, hgiven, hsame⟩
    · obtain ⟨entry, hentry, hsame⟩ := (hreached node).mpr hshown
      exact ⟨entry.1, h.kept entry hentry, hsame⟩
    · obtain ⟨other, hother, hnode'⟩ := h.given candidate hgiven
      exact ⟨other, hother, hnode'.trans hsame⟩

end Grown

/-- The expansion is a bounded tree, and a silent one is complete when the cut calls suffice. -/
theorem expand_tree (service : r.Service graph contents) (catalog : r.Catalog)
    (hgraph : r.graph = some graph) (hkeys : catalog.KeysName candidates)
    (hseeded : Seeded seeds candidates)
    (h : r.expand seeds candidates diagnostics = .ok (expanded, diagnostics')) :
    (r.config.graphDepth = 0 ∧ expanded = candidates ∨ ∃ state,
        r.expandLoop graph (seeds.length + r.config.graphNodeBudget)
            (startOf seeds candidates diagnostics) = .ok state ∧
          state.candidates = expanded ∧ state.expandedNodes ≤ r.config.graphNodeBudget ∧
            state.edgeCount ≤ r.config.graphEdgeBudget) ∧
      (expanded.filter fun candidate => candidate.parentId.isSome).length ≤
        r.config.graphNodeBudget ∧
      (∀ candidate ∈ expanded, if candidate.parentId = none then candidate ∈ candidates
        else r.Hangs contents seeds expanded candidate) ∧
      (diagnostics' = diagnostics → (Complete catalog contents seeds expanded ↔
        CallsSuffice service catalog seeds candidates)) := by
  unfold expand at h
  rw [hgraph] at h
  simp only at h
  split at h
  · rename_i hflat
    cases h
    have hall : ∀ candidate ∈ candidates, candidate.parentId = none :=
      fun candidate hmem => (hseeded.fresh candidate hmem).2
    have hseeds : Complete catalog contents seeds candidates := by
      rintro node ⟨root, hroot, length, hlength, route⟩
      have hzero : length = 0 := by
        simp only [hardDepth, hflat, Nat.zero_min] at hlength
        omega
      subst hzero
      cases route
      obtain ⟨seed, hseed, rfl⟩ := List.mem_map.mp hroot
      exact ⟨seed, hseeded.listed seed hseed, rfl⟩
    refine ⟨.inl ⟨hflat, rfl⟩, ?_, fun candidate hmem => ?_, fun _ => ⟨?_, fun _ => hseeds⟩⟩
    · rw [List.filter_eq_nil_iff.mpr fun candidate hmem => by simp [hall candidate hmem]]
      exact Nat.zero_le _
    · rw [if_pos (hall candidate hmem)]
      exact hmem
    · exact fun hcomplete node hnode => .inr (hcomplete node hnode)
  · obtain ⟨state, hloop, h⟩ := bind_eq_ok.mp h
    simp only [pure, Except.pure, Except.ok.injEq, Prod.mk.injEq] at h
    obtain ⟨rfl, hreport⟩ := h
    have hstart : Tree service catalog seeds candidates diagnostics [] _ _ := Tree.start hseeded
    obtain ⟨more, htree⟩ := hstart.expandLoop hkeys _ hloop
    refine ⟨.inr ⟨state, hloop, rfl, htree.nodes, htree.edges⟩, htree.length_children hseeded,
      fun candidate hmem => ?_, fun hsilent => ?_⟩
    · split
      · rename_i hparent
        exact htree.given_of_plain hseeded hmem hparent
      · rename_i hparent
        exact htree.hangs hseeded hmem hparent
    · rw [hsilent] at hreport
      split at hreport
      · exact absurd (htree.quiet hreport).2 (List.cons_ne_nil _ _)
      · rename_i hopen
        rw [not_or, not_not, Bool.not_eq_true] at hopen
        exact htree.complete_iff ⟨hreport, hopen.2⟩ hopen.1

omit [RankingLibrary] in
/-- Where no lookup cuts calls off, every hop is a shown one. -/
theorem shownHop_of_uncut {service : r.Service graph contents} {catalog : r.Catalog}
    (huncut : ∀ id incoming build,
      (service.ranked id incoming build).length ≤ r.config.perNodeEdgeBudget + 1)
    {node next : Node} (h : storedHop catalog contents node next) :
    shownHop service catalog node next := by
  obtain ⟨edge, ⟨hrelation, hedge⟩, hbuild, hsame, hjoins, hthere⟩ := h
  refine ⟨edge, ⟨hrelation, ?_⟩, hbuild, hsame, hjoins, hthere⟩
  rcases hedge with hstored | ⟨call, hcall, rfl⟩
  · exact .inl hstored
  · right
    have hmem (incoming : Bool)
        (hend : (if incoming then call.2.targetSymbolId.val else call.1.val) = node.2) :
        call ∈ (service.ranked node.2 incoming node.1).take (r.config.perNodeEdgeBudget + 1) := by
      rw [List.take_of_length_le (huncut _ _ _), service.mem_ranked]
      exact ⟨hcall, hbuild, hend⟩
    rcases hjoins with ⟨hsource, -⟩ | ⟨htarget, -⟩
    · exact ⟨false, call, hmem false hsource, rfl⟩
    · exact ⟨true, call, hmem true htarget, rfl⟩

end Expand

/-! ## A symbol with many calls -/

section CrowdedCaller

/-- An adapter that serves stored contents in their order. -/
def servedGraph (contents : GraphContents) : GraphAdapter where
  neighbors id relations limits :=
    let around := contents.edges.filter fun edge =>
      (relations = [] ∨ edge.relation ∈ relations) ∧
        (edge.sourceId.val = id ∨ edge.targetId.val = id)
    match limits with
    | none => .ok around
    | some (limit, build) => .ok ((around.filter fun edge => edge.buildVariant = build).take limit)
  callEvidence := some fun id incoming build limit =>
    .ok ((contents.calls.filter fun call => call.2.buildVariant = build ∧
      (if incoming then call.2.targetSymbolId.val else call.1.val) = id).take limit)

def servedSymbol (symbols : List CodeSymbol) (build id : String) : Option CodeSymbol :=
  symbols.find? fun symbol => symbol.buildVariant = build ∧ symbol.text.id.val = id

theorem mem_of_servedSymbol {symbols : List CodeSymbol} {build id : String} {symbol : CodeSymbol}
    (h : servedSymbol symbols build id = some symbol) : symbol ∈ symbols :=
  List.mem_of_find?_eq_some h

def servedSymbols (symbols : List CodeSymbol) : SymbolAdapter where
  getSymbols := some fun ids build => .ok (ids.map (servedSymbol symbols build))
  getSymbol id build := .ok (match build with
    | some build => servedSymbol symbols build id
    | none => symbols.find? fun symbol => symbol.text.id.val = id)

def callName (site : Nat) : Identifier :=
  ⟨"call " ++ toString site, by simp [isBlank, isSpace]⟩

def namedFunction (name : Identifier) : CodeSymbol :=
  (variableHit name).symbol

def callTo (target : Identifier) (certainty : CallTargetCertainty) (site : Nat) : CallTarget where
  id := callName site
  callsiteId := callName site
  targetSymbolId := target
  certainty := certainty
  confidence := 1
  confidenceReason := target
  derivation := target
  evidenceSpan := .start "a.cpp"
  confidenceRange := by norm_num

/-- `alpha` calls `beta` at `sites` places, and may call `gamma` at one more. -/
def crowded (sites : Nat) : GraphContents where
  edges := [⟨alpha, beta, .calls, "default"⟩]
  calls := ((List.range sites).map fun site => (alpha, callTo beta .certain site)) ++
    [(alpha, callTo gamma .possible sites)]

def crowdedCaller (sites : Nat) : HybridRetriever where
  lexicalSearch _ _ := .ok []
  symbolSearch _ _ := .ok []
  vectorSearch _ _ := .ok []
  symbolStore := servedSymbols [namedFunction alpha, namedFunction beta, namedFunction gamma]
  sourceReader := ⟨fun _ => .ok "", id⟩
  graph := some (servedGraph (crowded sites))
  buildScope := .default

def crowdedService (sites : Nat) :
    (crowdedCaller sites).Service (servedGraph (crowded sites)) (crowded sites) where
  listed id build := ((crowded sites).edges.filter fun edge =>
    ((crowdedCaller sites).config.relations = [] ∨
        edge.relation ∈ (crowdedCaller sites).config.relations) ∧
      (edge.sourceId.val = id ∨ edge.targetId.val = id)).filter fun edge =>
        edge.buildVariant = build
  ranked id incoming build := (crowded sites).calls.filter fun call =>
    call.2.buildVariant = build ∧
      (if incoming then call.2.targetSymbolId.val else call.1.val) = id
  mem_listed id build edge := by
    simp only [List.mem_filter, decide_eq_true_eq]
    tauto
  mem_ranked id incoming build call := by
    simp only [List.mem_filter, decide_eq_true_eq]
  neighbors id build limit := .inl rfl
  callEvidence lookup hlookup id incoming build limit := by
    cases hlookup
    exact .inl rfl
  noEvidence hnone := by cases hnone

def crowdedCatalog (sites : Nat) : (crowdedCaller sites).Catalog where
  symbolAt := servedSymbol [namedFunction alpha, namedFunction beta, namedFunction gamma]
  named build id symbol hsymbol := by
    simpa using List.find?_some hsymbol
  getSymbols lookup hlookup ids build symbols hsymbols := by
    cases hlookup
    cases hsymbols
    rfl
  getSymbol build id := .inl rfl

def callerSeed : Candidate := markSeed ⟨⟨namedFunction alpha, 1, "hybrid"⟩, [], [], false, none, 0⟩

/-- Texts as they are: no ranking takes part in an expansion. -/
local instance plainRanking : RankingLibrary where
  casefold text := text
  sqrt root := root
  twoDecimals _ := "1.00"

/-- After 21 places that call `beta`, the call of `gamma` is cut off and nothing is reported. -/
theorem crowdedCaller_loses_callee : ∃ expanded,
    (crowdedCaller 21).expand [callerSeed] [callerSeed] [] = .ok (expanded, []) ∧
      ¬ Complete (crowdedCatalog 21) (crowded 21) [callerSeed] expanded := by
  have hrun : ((crowdedCaller 21).expand [callerSeed] [callerSeed] []).map (fun result =>
      (result.1.map Candidate.node, result.2)) =
      .ok ([("default", "alpha"), ("default", "beta")], []) := by decide +kernel
  cases hexpand : (crowdedCaller 21).expand [callerSeed] [callerSeed] [] with
  | error raised =>
      rw [hexpand] at hrun
      cases hrun
  | ok result =>
      obtain ⟨expanded, diagnostics⟩ := result
      rw [hexpand] at hrun
      simp only [Except.map, Except.ok.injEq, Prod.mk.injEq] at hrun
      obtain ⟨hnodes, rfl⟩ := hrun
      refine ⟨expanded, rfl, fun hcomplete => ?_⟩
      have hcall : (alpha, callTo gamma .possible 21) ∈ (crowded 21).calls := by
        simp [crowded]
      have hhop : storedHop (crowdedCatalog 21) (crowded 21) callerSeed.node
          ("default", "gamma") :=
        ⟨callEdge (alpha, callTo gamma .possible 21), ⟨by decide, .inr ⟨_, hcall, rfl⟩⟩, rfl, rfl,
          .inl ⟨rfl, rfl⟩, by decide⟩
      obtain ⟨candidate, hmem, hnode⟩ := hcomplete ("default", "gamma")
        ⟨callerSeed.node, by simp, 1, by decide, .hop .here hhop⟩
      have hlisted : ("default", "gamma") ∈ [("default", "alpha"), ("default", "beta")] := by
        rw [← hnodes, ← hnode]
        exact List.mem_map_of_mem hmem
      revert hlisted
      decide

theorem crowdedCatalog_keysName (sites : Nat) :
    (crowdedCatalog sites).KeysName [callerSeed] := by
  have hknown : ∀ symbol, (crowdedCatalog sites).Known [callerSeed] symbol →
      symbol ∈ [namedFunction alpha, namedFunction beta, namedFunction gamma] := by
    rintro symbol (⟨candidate, hmem, rfl⟩ | ⟨build, id, hsymbol⟩)
    · rw [List.mem_singleton.mp hmem]
      exact List.mem_cons_self
    · exact mem_of_servedSymbol hsymbol
  refine ⟨fun symbol other hsymbol hother => ?_, fun symbol build id hsymbol hthere hkey => ?_⟩
  · have hall : ∀ symbol ∈ [namedFunction alpha, namedFunction beta, namedFunction gamma],
        ∀ other ∈ [namedFunction alpha, namedFunction beta, namedFunction gamma],
          evidenceKey symbol = evidenceKey other →
            symbol.buildVariant = other.buildVariant ∧ symbol.text.id = other.text.id := by
      decide
    exact hall symbol (hknown symbol hsymbol) other (hknown other hother)
  · obtain ⟨other, hother⟩ := Option.isSome_iff_exists.mp hthere
    obtain ⟨hbuild, hid⟩ := (crowdedCatalog sites).named build id other hother
    have hall : ∀ symbol ∈ [namedFunction alpha, namedFunction beta, namedFunction gamma],
        ∀ other ∈ [namedFunction alpha, namedFunction beta, namedFunction gamma],
          evidenceKey symbol = other.buildVariant ++ ":" ++ other.text.id.val →
            symbol.buildVariant = other.buildVariant ∧ symbol.text.id.val = other.text.id.val := by
      decide
    rw [← hbuild, ← hid] at hkey ⊢
    exact hall symbol (hknown symbol hsymbol) other (hknown other (.inr ⟨build, id, hother⟩)) hkey

/-- With one place that calls `beta` the lookups are not cut, and `gamma` is found. -/
theorem expand_tree_crowdedCaller : ∃ expanded,
    (crowdedCaller 1).expand [callerSeed] [callerSeed] [] = .ok (expanded, []) ∧
      Complete (crowdedCatalog 1) (crowded 1) [callerSeed] expanded := by
  have hrun : ((crowdedCaller 1).expand [callerSeed] [callerSeed] []).map Prod.snd = .ok [] := by
    decide +kernel
  cases hexpand : (crowdedCaller 1).expand [callerSeed] [callerSeed] [] with
  | error raised =>
      rw [hexpand] at hrun
      cases hrun
  | ok result =>
      obtain ⟨expanded, diagnostics⟩ := result
      rw [hexpand] at hrun
      simp only [Except.map, Except.ok.injEq] at hrun
      subst hrun
      have hseeded : Seeded [callerSeed] [callerSeed] :=
        ⟨by simp, by simp [callerSeed, markSeed], by simp⟩
      have huncut : ∀ id incoming build, ((crowdedService 1).ranked id incoming build).length ≤
          (crowdedCaller 1).config.perNodeEdgeBudget + 1 := by
        intro id incoming build
        have hfew : (crowded 1).calls.length ≤ (crowdedCaller 1).config.perNodeEdgeBudget + 1 := by
          decide
        exact (List.length_filter_le _ _).trans hfew
      refine ⟨expanded, rfl, ?_⟩
      apply ((expand_tree (crowdedService 1) (crowdedCatalog 1) rfl
        (crowdedCatalog_keysName 1) hseeded hexpand).2.2.2 rfl).mpr
      rintro node ⟨root, hroot, length, hlength, route⟩
      exact .inl ⟨root, hroot, length, hlength, route.mono fun _ _ => shownHop_of_uncut huncut⟩

end CrowdedCaller

end HybridRetriever

end CppContextEngine.Retrieval
