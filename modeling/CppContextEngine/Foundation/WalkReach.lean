import CppContextEngine.Foundation.BoundedWalk

/-!
# What a walk reaches

The queue of a walk is ordered by level, so a node waits at its distance from
the start.  Without bounds the walk finds the edges listed at the nodes nearer
than its depth; with a bound it finds the first of them.
-/

namespace CppContextEngine.Foundation

namespace Walk

section Reach

variable {Node Edge Id : Type} {id : Edge → Id} {adjacent : Node → Edge → Node}

/-- A path over listed edges, by its length. -/
inductive Path (adjacent : Node → Edge → Node) (rows : Node → List Edge) (start : Node) :
    Nat → Node → Prop where
  | refl : Path adjacent rows start 0 start
  | step {length : Nat} {node : Node} {edge : Edge} (path : Path adjacent rows start length node)
      (listed : edge ∈ rows node) : Path adjacent rows start (length + 1) (adjacent node edge)

variable [DecidableEq Node] [DecidableEq Id]

/-- What the rows of one node add to a walk. -/
structure Visited (adjacent : Node → Edge → Node) (node : Node) (level : Nat)
    (edges : List Edge) (walk next : Walk Node Edge) (added : List (Node × Nat)) : Prop where
  frontier : next.frontier = walk.frontier ++ added
  visited : next.visited = walk.visited ++ added.map Prod.fst
  level : ∀ entry ∈ added, entry.2 = level + 1
  listed : ∀ entry ∈ added, ∃ edge ∈ edges, adjacent node edge = entry.1
  seen : ∀ edge ∈ edges, adjacent node edge ∈ next.visited

omit [DecidableEq Id] in
theorem follow_visited (node : Node) (level : Nat) (edge : Edge) (walk : Walk Node Edge) :
    ∃ added, Visited adjacent node level [edge] walk
      (walk.follow adjacent node level edge) added := by
  unfold Walk.follow
  split
  · rename_i hseen
    exact ⟨[], by simp, by simp, by simp, by simp, by simpa using hseen⟩
  · exact ⟨[(adjacent node edge, level + 1)], rfl, by simp, by simp, by simp, by simp⟩

theorem visit_visited {node : Node} {level : Nat} (edges : List Edge) :
    ∀ walk : Walk Node Edge, ∃ added, Visited adjacent node level edges walk
      (visit id adjacent none node level edges walk) added := by
  induction edges with
  | nil => exact fun walk => ⟨[], by simp [visit], by simp [visit], by simp, by simp, by simp⟩
  | cons edge edges ih =>
      intro walk
      obtain ⟨first, hfirst⟩ := @follow_visited Node Edge adjacent _ node level edge
        (walk.record id edge)
      obtain ⟨rest, hrest⟩ := ih ((walk.record id edge).follow adjacent node level edge)
      unfold visit
      simp only [not_full_none, ↓reduceIte]
      refine ⟨first ++ rest, ?_, ?_, ?_, ?_, ?_⟩
      · rw [hrest.frontier, hfirst.frontier, frontier_record, List.append_assoc]
      · rw [hrest.visited, hfirst.visited, visited_record, List.map_append, List.append_assoc]
      · intro entry hentry
        rcases List.mem_append.mp hentry with hentry | hentry
        · exact hfirst.level entry hentry
        · exact hrest.level entry hentry
      · intro entry hentry
        rcases List.mem_append.mp hentry with hentry | hentry
        · obtain ⟨other, hother, hsame⟩ := hfirst.listed entry hentry
          exact ⟨other, by simp [List.mem_singleton.mp hother], hsame⟩
        · obtain ⟨other, hother, hsame⟩ := hrest.listed entry hentry
          exact ⟨other, List.mem_cons_of_mem _ hother, hsame⟩
      · intro other hother
        rcases List.mem_cons.mp hother with rfl | hother
        · rw [hrest.visited]
          exact List.mem_append_left _ (hfirst.seen _ List.mem_cons_self)
        · exact hrest.seen other hother

theorem id_mem_visit_iff {node : Node} {level : Nat} (edges : List Edge) (walk : Walk Node Edge)
    {key : Id} : key ∈ (visit id adjacent none node level edges walk).found.map id ↔
      key ∈ walk.found.map id ∨ key ∈ edges.map id := by
  constructor
  · intro h
    obtain ⟨edge, hedge, rfl⟩ := List.mem_map.mp h
    exact (mem_found_visit edges walk hedge).imp List.mem_map_of_mem List.mem_map_of_mem
  · rintro (h | h)
    · exact ((found_prefix_visit edges walk).map id).subset h
    · obtain ⟨edge, hedge, rfl⟩ := List.mem_map.mp h
      exact id_mem_visit edges walk hedge

/-! ## The queue -/

/-- The nodes taken so far, and what they have led to. -/
structure Explored (id : Edge → Id) (adjacent : Node → Edge → Node) (rows : Node → List Edge)
    (start : Node) (depth : Nat) (done : List (Node × Nat)) (walk : Walk Node Edge) : Prop where
  entered : (start, 0) ∈ done ++ walk.frontier
  seen : ∀ node, node ∈ walk.visited ↔ node ∈ (done ++ walk.frontier).map Prod.fst
  path : ∀ entry ∈ done ++ walk.frontier, Path adjacent rows start entry.2 entry.1
  sorted : (walk.frontier.map Prod.snd).Pairwise (· ≤ ·)
  near : ∀ entry ∈ walk.frontier, ∀ other ∈ done ++ walk.frontier, other.2 ≤ entry.2 + 1
  closed : ∀ entry ∈ done, entry.2 < depth → ∀ edge ∈ rows entry.1,
    ∃ level ≤ entry.2 + 1, (adjacent entry.1 edge, level) ∈ done ++ walk.frontier
  found : ∀ key, key ∈ walk.found.map id ↔
    ∃ entry ∈ done, entry.2 < depth ∧ key ∈ (rows entry.1).map id

omit [DecidableEq Node] [DecidableEq Id] in
theorem explored_start {rows : Node → List Edge} (node : Node) (depth : Nat) :
    Explored id adjacent rows node depth [] (start node : Walk Node Edge) := by
  refine ⟨by simp [start], by simp [start], ?_, by simp [start], by simp [start],
    by simp, by simp [start]⟩
  intro entry hentry
  obtain rfl : entry = (node, 0) := by simpa [start] using hentry
  exact .refl

omit [DecidableEq Node] [DecidableEq Id] in
/-- A node at the depth is taken without its rows. -/
theorem Explored.skip {rows : Node → List Edge} {begin : Node} {depth : Nat}
    {done : List (Node × Nat)} {walk : Walk Node Edge}
    (h : Explored id adjacent rows begin depth done walk) {node : Node} {level : Nat}
    {frontier : List (Node × Nat)} (hfrontier : walk.frontier = (node, level) :: frontier)
    (hdeep : depth ≤ level) :
    Explored id adjacent rows begin depth (done ++ [(node, level)])
      { walk with frontier := frontier } := by
  have hqueue : done ++ [(node, level)] ++ frontier = done ++ walk.frontier := by
    simp [hfrontier]
  have hsorted := h.sorted
  rw [hfrontier, List.map_cons, List.pairwise_cons] at hsorted
  refine ⟨?_, ?_, ?_, hsorted.2, ?_, ?_, ?_⟩
  · simpa only [hqueue] using h.entered
  · simpa only [hqueue] using h.seen
  · simpa only [hqueue] using h.path
  · intro entry hentry
    rw [hqueue]
    exact h.near entry (by simp [hfrontier, hentry])
  · intro entry hentry hlevel
    rw [hqueue]
    rcases List.mem_append.mp hentry with hentry | hentry
    · exact h.closed entry hentry hlevel
    · obtain rfl := List.mem_singleton.mp hentry
      exact absurd hlevel (Nat.not_lt.mpr hdeep)
  · intro key
    rw [h.found]
    simp only [List.mem_append, List.mem_singleton]
    constructor
    · rintro ⟨entry, hentry, hrest⟩
      exact ⟨entry, .inl hentry, hrest⟩
    · rintro ⟨entry, hentry | rfl, hlevel, hkey⟩
      · exact ⟨entry, hentry, hlevel, hkey⟩
      · exact absurd hlevel (Nat.not_lt.mpr hdeep)

/-- A node before the depth is taken with its rows. -/
theorem Explored.expand {rows : Node → List Edge} {begin : Node} {depth : Nat}
    {done : List (Node × Nat)} {walk : Walk Node Edge}
    (h : Explored id adjacent rows begin depth done walk) {node : Node} {level : Nat}
    {frontier : List (Node × Nat)} (hfrontier : walk.frontier = (node, level) :: frontier)
    (hlevel : level < depth) :
    Explored id adjacent rows begin depth (done ++ [(node, level)])
      (visit id adjacent none node level (rows node) { walk with frontier := frontier }) := by
  have hqueue : done ++ walk.frontier = done ++ [(node, level)] ++ frontier := by
    simp [hfrontier]
  obtain ⟨added, hadded⟩ := @visit_visited Node Edge Id id adjacent _ _ node level (rows node)
    { walk with frontier := frontier }
  have hsorted := h.sorted
  rw [hfrontier, List.map_cons, List.pairwise_cons] at hsorted
  have hnear : ∀ other ∈ done ++ [(node, level)] ++ frontier, other.2 ≤ level + 1 := by
    rw [← hqueue]
    exact h.near (node, level) (by simp [hfrontier])
  have hnode : Path adjacent rows begin level node :=
    h.path (node, level) (by simp [hfrontier])
  have hall : done ++ [(node, level)] ++ (visit id adjacent none node level (rows node)
      { walk with frontier := frontier }).frontier =
        done ++ [(node, level)] ++ frontier ++ added := by
    rw [hadded.frontier, List.append_assoc, List.append_assoc, List.append_assoc]
  have hseen : ∀ other, other ∈ (visit id adjacent none node level (rows node)
      { walk with frontier := frontier }).visited ↔
        other ∈ (done ++ [(node, level)] ++ frontier ++ added).map Prod.fst := by
    intro other
    rw [hadded.visited, List.map_append, List.mem_append, List.mem_append, ← hqueue, ← h.seen]
  refine ⟨?_, ?_, ?_, ?_, ?_, ?_, ?_⟩
  · rw [hall]
    exact List.mem_append_left _ (hqueue ▸ h.entered)
  · rw [hall]
    exact hseen
  · rw [hall]
    intro entry hentry
    rcases List.mem_append.mp hentry with hentry | hentry
    · exact h.path entry (hqueue ▸ hentry)
    · obtain ⟨edge, hedge, hsame⟩ := hadded.listed entry hentry
      rw [hadded.level entry hentry, ← hsame]
      exact .step hnode hedge
  · rw [hadded.frontier, List.map_append, List.pairwise_append]
    refine ⟨hsorted.2, ?_, ?_⟩
    · refine List.pairwise_map.mpr (List.pairwise_of_forall_mem_list
        fun entry hentry other hother => Nat.le_of_eq ?_)
      rw [hadded.level entry hentry, hadded.level other hother]
    · intro first hfirst second hsecond
      obtain ⟨entry, hentry, rfl⟩ := List.mem_map.mp hfirst
      obtain ⟨other, hother, rfl⟩ := List.mem_map.mp hsecond
      rw [hadded.level other hother]
      exact hnear entry (List.mem_append_right _ hentry)
  · rw [hall]
    intro entry hentry other hother
    -- whatever waits now waits at this level or at the next
    have hge : level ≤ entry.2 := by
      rw [hadded.frontier] at hentry
      rcases List.mem_append.mp hentry with hentry | hentry
      · exact hsorted.1 _ (List.mem_map_of_mem hentry)
      · rw [hadded.level entry hentry]
        exact Nat.le_succ level
    have hle : other.2 ≤ level + 1 := by
      rcases List.mem_append.mp hother with hother | hother
      · exact hnear other hother
      · exact Nat.le_of_eq (hadded.level other hother)
    omega
  · rw [hall]
    intro entry hentry hdepth edge hedge
    rcases List.mem_append.mp hentry with hentry | hentry
    · obtain ⟨next, hnext, hmem⟩ := h.closed entry hentry hdepth edge hedge
      exact ⟨next, hnext, List.mem_append_left _ (hqueue ▸ hmem)⟩
    · obtain rfl := List.mem_singleton.mp hentry
      obtain ⟨other, hother, hsame⟩ :=
        List.mem_map.mp ((hseen _).mp (hadded.seen edge hedge))
      refine ⟨other.2, ?_, by rw [← hsame]; exact hother⟩
      rcases List.mem_append.mp hother with hother | hother
      · exact hnear other hother
      · exact Nat.le_of_eq (hadded.level other hother)
  · intro key
    rw [id_mem_visit_iff, h.found]
    simp only [List.mem_append, List.mem_singleton]
    constructor
    · rintro (⟨entry, hentry, hrest⟩ | hkey)
      · exact ⟨entry, .inl hentry, hrest⟩
      · exact ⟨_, .inr rfl, hlevel, hkey⟩
    · rintro ⟨entry, hentry | rfl, hdepth, hkey⟩
      · exact .inl ⟨entry, hentry, hdepth, hkey⟩
      · exact .inr hkey

theorem explored_run {rows : Node → List Edge} {begin : Node} {depth : Nat} (fuel : Nat) :
    ∀ {done : List (Node × Nat)} {walk : Walk Node Edge},
      Explored id adjacent rows begin depth done walk →
      ∃ taken, Explored id adjacent rows begin depth taken
        (run id adjacent rows none depth fuel walk) := by
  induction fuel with
  | zero => exact fun h => ⟨_, h⟩
  | succ fuel ih =>
      intro done walk h
      unfold run
      split
      · exact ⟨done, h⟩
      · rename_i node level frontier hfrontier
        simp only [not_full_none, ↓reduceIte]
        split
        · rename_i hdeep
          exact ih (h.skip hfrontier hdeep)
        · rename_i hlevel
          exact ih (h.expand hfrontier (Nat.not_le.mp hlevel))

omit [DecidableEq Node] [DecidableEq Id] in
/-- Every node within the depth is taken, at its distance or before. -/
theorem Explored.reaches {rows : Node → List Edge} {begin : Node} {depth : Nat}
    {done : List (Node × Nat)} {walk : Walk Node Edge}
    (h : Explored id adjacent rows begin depth done walk) (hdone : walk.frontier = [])
    {length : Nat} {node : Node} (hpath : Path adjacent rows begin length node) :
    length ≤ depth → ∃ level ≤ length, (node, level) ∈ done := by
  induction hpath with
  | refl =>
      intro _
      exact ⟨0, Nat.le_refl _, by simpa [hdone] using h.entered⟩
  | step path listed ih =>
      intro hlength
      obtain ⟨level, hlevel, hmem⟩ := ih (Nat.le_of_succ_le hlength)
      obtain ⟨next, hnext, hentry⟩ := h.closed _ hmem (by simp only; omega) _ listed
      simp only at hnext
      exact ⟨next, by omega, by simpa [hdone] using hentry⟩

/-- A walk whose queue is empty has found what the nodes nearer than its depth list. -/
theorem id_mem_run_iff {rows : Node → List Edge} {node : Node} {depth fuel : Nat}
    (hdone : (run id adjacent rows none depth fuel (start node)).frontier = []) {key : Id} :
    key ∈ (run id adjacent rows none depth fuel (start node)).found.map id ↔
      ∃ other, (∃ length < depth, Path adjacent rows node length other) ∧
        key ∈ (rows other).map id := by
  obtain ⟨done, h⟩ := @explored_run Node Edge Id id adjacent _ _ rows node depth fuel _ _
    (explored_start node depth)
  rw [h.found]
  constructor
  · rintro ⟨entry, hentry, hlevel, hkey⟩
    exact ⟨entry.1, ⟨entry.2, hlevel, h.path entry (List.mem_append_left _ hentry)⟩, hkey⟩
  · rintro ⟨other, ⟨length, hlength, hpath⟩, hkey⟩
    obtain ⟨level, hlevel, hentry⟩ := h.reaches hdone hpath (Nat.le_of_lt hlength)
    exact ⟨_, hentry, Nat.lt_of_le_of_lt hlevel hlength, hkey⟩

/-! ## The bound -/

theorem visit_take {limit : Nat} {node : Node} {level : Nat} (edges : List Edge) :
    ∀ walk : Walk Node Edge, walk.found.length < limit →
      (visit id adjacent (some limit) node level edges walk).found =
        (visit id adjacent none node level edges walk).found.take limit := by
  induction edges with
  | nil =>
      intro walk hroom
      simp only [visit]
      exact (List.take_of_length_le (Nat.le_of_lt hroom)).symm
  | cons edge edges ih =>
      intro walk hroom
      unfold visit
      simp only [not_full_none, ↓reduceIte]
      have hrecord : (walk.record id edge).found.length ≤ limit := by
        rw [found_record]
        split
        · omega
        · rw [List.length_append, List.length_singleton]
          omega
      split
      · rename_i hfull
        rw [full_some] at hfull
        obtain ⟨rest, hrest⟩ := @found_prefix_visit Node Edge Id _ _ id adjacent none node level
          edges ((walk.record id edge).follow adjacent node level edge)
        rw [← hrest, found_follow, List.take_append_of_le_length hfull,
          List.take_of_length_le hrecord]
      · rename_i hfull
        rw [full_some, Nat.not_le] at hfull
        exact ih _ (by rwa [found_follow])

/-- A walk with a bound finds the first edges of the walk without. -/
theorem run_take {rows : Node → List Edge} {limit depth : Nat} (fuel : Nat) :
    ∀ walk : Walk Node Edge, walk.found.length ≤ limit →
      (run id adjacent rows (some limit) depth fuel walk).found =
        (run id adjacent rows none depth fuel walk).found.take limit := by
  induction fuel with
  | zero => exact fun _ hroom => (List.take_of_length_le hroom).symm
  | succ fuel ih =>
      intro walk hroom
      by_cases hfull : walk.Full (some limit)
      · have hstop : run id adjacent rows (some limit) depth (fuel + 1) walk = walk := by
          unfold run
          split
          · rfl
          · rw [if_pos hfull]
        obtain ⟨rest, hrest⟩ := @found_prefix_run Node Edge Id _ _ id adjacent rows none depth
          (fuel + 1) walk
        rw [hstop, ← hrest, List.take_append_of_le_length (full_some.mp hfull),
          List.take_of_length_le hroom]
      · unfold run
        split
        · exact (List.take_of_length_le hroom).symm
        · rename_i node level frontier _
          simp only [not_full_none, ↓reduceIte]
          rw [if_neg hfull]
          rw [full_some, Nat.not_le] at hfull
          split
          · exact ih { walk with frontier := frontier } hroom
          · have hvisit := @visit_take Node Edge Id id adjacent _ _ limit node level (rows node)
              { walk with frontier := frontier } hfull
            by_cases hmore : (visit id adjacent (some limit) node level (rows node)
                { walk with frontier := frontier }).found.length < limit
            · have hsame := visit_under _ _ hmore
              rw [hsame] at hmore ⊢
              exact ih _ (Nat.le_of_lt hmore)
            · -- the bound is met inside the rows of this node
              rw [Nat.not_lt] at hmore
              obtain ⟨rest, hrest⟩ := @found_prefix_run Node Edge Id _ _ id adjacent rows none
                depth fuel (visit id adjacent none node level (rows node)
                  { walk with frontier := frontier })
              have hlength : (visit id adjacent (some limit) node level (rows node)
                  { walk with frontier := frontier }).found.length ≤ limit := by
                rw [hvisit]
                exact List.length_take_le _ _
              have hlong : limit ≤ (visit id adjacent none node level (rows node)
                  { walk with frontier := frontier }).found.length := by
                rw [hvisit, List.length_take] at hmore
                omega
              have hstop := ih (visit id adjacent (some limit) node level (rows node)
                { walk with frontier := frontier }) hlength
              obtain ⟨more, hmoreRest⟩ := @found_prefix_run Node Edge Id _ _ id adjacent rows none
                depth fuel (visit id adjacent (some limit) node level (rows node)
                  { walk with frontier := frontier })
              rw [hstop, ← hmoreRest, List.take_append_of_le_length hmore,
                List.take_of_length_le hlength, hvisit, ← hrest,
                List.take_append_of_le_length hlong]

end Reach

end Walk

end CppContextEngine.Foundation
