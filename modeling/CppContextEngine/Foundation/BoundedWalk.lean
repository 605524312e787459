import Mathlib.Data.List.Nodup
import Mathlib.Data.List.Perm.Subperm

/-!
# Bounded walks

A breadth-first walk over the listed edges of each node, cut by a depth and by
a number of edges.  A walk that stays under its bounds is the walk without
them; for lists that share no edge, one more row to each node tells whether a
shorter list hid anything.
-/

namespace CppContextEngine.Foundation

/-- The queue, the nodes seen and the edges found of a walk. -/
structure Walk (Node Edge : Type) where
  frontier : List (Node × Nat)
  visited : List Node
  found : List Edge := []

section Walks

variable {Node Edge Id : Type} [DecidableEq Node] [DecidableEq Id] (id : Edge → Id)
  (adjacent : Node → Edge → Node)

namespace Walk

/-- An edge is found once. -/
def record (edge : Edge) (walk : Walk Node Edge) : Walk Node Edge :=
  if id edge ∈ walk.found.map id then walk else { walk with found := walk.found ++ [edge] }

def follow (node : Node) (level : Nat) (edge : Edge) (walk : Walk Node Edge) : Walk Node Edge :=
  if adjacent node edge ∈ walk.visited then walk
  else
    { walk with
      visited := walk.visited ++ [adjacent node edge]
      frontier := walk.frontier ++ [(adjacent node edge, level + 1)] }

/-- The walk has found as many edges as it may. -/
def Full (maxEdges : Option Nat) (walk : Walk Node Edge) : Prop :=
  ∃ limit, maxEdges = some limit ∧ limit ≤ walk.found.length

omit [DecidableEq Node] [DecidableEq Id] in
instance (maxEdges : Option Nat) (walk : Walk Node Edge) : Decidable (walk.Full maxEdges) :=
  match maxEdges with
  | none => .isFalse fun ⟨_, hnone, _⟩ => by cases hnone
  | some limit => decidable_of_iff (limit ≤ walk.found.length) (by simp [Full])

/-- The rows of one node, until the walk is full. -/
def visit (maxEdges : Option Nat) (node : Node) (level : Nat) :
    List Edge → Walk Node Edge → Walk Node Edge
  | [], walk => walk
  | edge :: edges, walk =>
      let walk := walk.record id edge
      if walk.Full maxEdges then walk
      else visit maxEdges node level edges (walk.follow adjacent node level edge)

/-- The loop over the queue. -/
def run (rows : Node → List Edge) (maxEdges : Option Nat) (depth : Nat) :
    Nat → Walk Node Edge → Walk Node Edge
  | 0, walk => walk
  | fuel + 1, walk =>
      match walk.frontier with
      | [] => walk
      | (node, level) :: frontier =>
          if walk.Full maxEdges then walk
          else if depth ≤ level then
            run rows maxEdges depth fuel { walk with frontier := frontier }
          else
            run rows maxEdges depth fuel
              (visit id adjacent maxEdges node level (rows node)
                { walk with frontier := frontier })

variable {id adjacent}

omit [DecidableEq Node] in
theorem found_record (edge : Edge) (walk : Walk Node Edge) :
    (walk.record id edge).found =
      if id edge ∈ walk.found.map id then walk.found else walk.found ++ [edge] := by
  unfold record
  split <;> rfl

omit [DecidableEq Node] in
@[simp] theorem frontier_record (edge : Edge) (walk : Walk Node Edge) :
    (walk.record id edge).frontier = walk.frontier := by
  unfold record
  split <;> rfl

omit [DecidableEq Node] in
@[simp] theorem visited_record (edge : Edge) (walk : Walk Node Edge) :
    (walk.record id edge).visited = walk.visited := by
  unfold record
  split <;> rfl

omit [DecidableEq Id] in
@[simp] theorem found_follow (node : Node) (level : Nat) (edge : Edge) (walk : Walk Node Edge) :
    (walk.follow adjacent node level edge).found = walk.found := by
  unfold follow
  split <;> rfl

omit [DecidableEq Node] in
theorem found_prefix_record (edge : Edge) (walk : Walk Node Edge) :
    walk.found <+: (walk.record id edge).found := by
  rw [found_record]
  split
  · exact List.prefix_rfl
  · exact List.prefix_append _ _

theorem found_prefix_visit {maxEdges : Option Nat} {node : Node} {level : Nat}
    (edges : List Edge) : ∀ walk : Walk Node Edge,
      walk.found <+: (visit id adjacent maxEdges node level edges walk).found := by
  induction edges with
  | nil => exact fun _ => List.prefix_rfl
  | cons edge edges ih =>
      intro walk
      unfold visit
      simp only
      split
      · exact found_prefix_record edge walk
      · have hrest := ih ((walk.record id edge).follow adjacent node level edge)
        rw [found_follow] at hrest
        exact (found_prefix_record edge walk).trans hrest

theorem found_prefix_run {rows : Node → List Edge} {maxEdges : Option Nat} {depth : Nat}
    (fuel : Nat) : ∀ walk : Walk Node Edge,
      walk.found <+: (run id adjacent rows maxEdges depth fuel walk).found := by
  induction fuel with
  | zero => exact fun _ => List.prefix_rfl
  | succ fuel ih =>
      intro walk
      unfold run
      split
      · exact List.prefix_rfl
      · rename_i node level frontier _
        split
        · exact List.prefix_rfl
        split
        · exact ih { walk with frontier := frontier }
        · exact (found_prefix_visit _ { walk with frontier := frontier }).trans (ih _)

/-! ## The number of edges -/

omit [DecidableEq Node] [DecidableEq Id] in
theorem not_full_none (walk : Walk Node Edge) : ¬ walk.Full none :=
  fun ⟨_, hnone, _⟩ => by cases hnone

omit [DecidableEq Node] [DecidableEq Id] in
theorem full_some {limit : Nat} {walk : Walk Node Edge} :
    walk.Full (some limit) ↔ limit ≤ walk.found.length := by
  simp [Full]

theorem visit_under {limit : Nat} {node : Node} {level : Nat} (edges : List Edge) :
    ∀ walk : Walk Node Edge,
      (visit id adjacent (some limit) node level edges walk).found.length < limit →
      visit id adjacent (some limit) node level edges walk =
        visit id adjacent none node level edges walk := by
  induction edges with
  | nil => exact fun _ _ => rfl
  | cons edge edges ih =>
      intro walk hunder
      unfold visit at hunder ⊢
      simp only [not_full_none, ↓reduceIte] at hunder ⊢
      split at hunder
      · rename_i hfull
        exact absurd (full_some.mp hfull) (Nat.not_le.mpr hunder)
      · rename_i hfull
        rw [if_neg hfull]
        exact ih _ hunder

/-- A walk that finds fewer edges than it may is not cut. -/
theorem run_under {rows : Node → List Edge} {limit depth : Nat} (fuel : Nat) :
    ∀ walk : Walk Node Edge,
      (run id adjacent rows (some limit) depth fuel walk).found.length < limit →
      run id adjacent rows (some limit) depth fuel walk =
        run id adjacent rows none depth fuel walk := by
  induction fuel with
  | zero => exact fun _ _ => rfl
  | succ fuel ih =>
      intro walk hunder
      unfold run at hunder ⊢
      split at hunder
      · rfl
      simp only [not_full_none, ↓reduceIte]
      split at hunder
      · rename_i hfull
        exact absurd (full_some.mp hfull) (Nat.not_le.mpr hunder)
      rename_i hfull
      rw [if_neg hfull]
      split at hunder
      · rename_i hdepth
        rw [if_pos hdepth, if_pos hdepth]
        exact ih _ hunder
      · rename_i hdepth
        rw [if_neg hdepth, if_neg hdepth]
        have hvisit := Nat.lt_of_le_of_lt (found_prefix_run fuel _).length_le hunder
        rw [visit_under _ _ hvisit] at hunder ⊢
        exact ih _ hunder

/-- A walk that would find fewer edges than a limit is not cut by it. -/
theorem visit_below {limit : Nat} {node : Node} {level : Nat} (edges : List Edge) :
    ∀ walk : Walk Node Edge,
      (visit id adjacent none node level edges walk).found.length < limit →
      visit id adjacent (some limit) node level edges walk =
        visit id adjacent none node level edges walk := by
  induction edges with
  | nil => exact fun _ _ => rfl
  | cons edge edges ih =>
      intro walk hbelow
      unfold visit at hbelow ⊢
      simp only [not_full_none, ↓reduceIte] at hbelow ⊢
      have hfound := (@found_prefix_visit Node Edge Id _ _ id adjacent none node level edges
        ((walk.record id edge).follow adjacent node level edge)).length_le
      rw [found_follow] at hfound
      rw [if_neg (by rw [full_some]; omega)]
      exact ih _ hbelow

theorem run_below {rows : Node → List Edge} {limit depth : Nat} (fuel : Nat) :
    ∀ walk : Walk Node Edge,
      (run id adjacent rows none depth fuel walk).found.length < limit →
      run id adjacent rows (some limit) depth fuel walk =
        run id adjacent rows none depth fuel walk := by
  induction fuel with
  | zero => exact fun _ _ => rfl
  | succ fuel ih =>
      intro walk hbelow
      unfold run at hbelow ⊢
      split at hbelow
      · rfl
      · rename_i node level frontier _
        simp only [not_full_none, ↓reduceIte] at hbelow ⊢
        split at hbelow
        · rename_i hdepth
          have hfound := (@found_prefix_run Node Edge Id _ _ id adjacent rows none depth fuel
            { walk with frontier := frontier }).length_le
          simp only at hfound
          rw [if_neg (by rw [full_some]; omega), if_pos hdepth, if_pos hdepth]
          exact ih _ hbelow
        · rename_i hdepth
          have hvisit := Nat.lt_of_le_of_lt (found_prefix_run fuel _).length_le hbelow
          have hfound := (@found_prefix_visit Node Edge Id _ _ id adjacent none node level
            (rows node) { walk with frontier := frontier }).length_le
          simp only at hfound
          rw [if_neg (by rw [full_some]; omega), if_neg hdepth, if_neg hdepth,
            visit_below _ _ hvisit]
          exact ih _ hbelow

omit [DecidableEq Node] in
theorem nodup_record {walk : Walk Node Edge} (h : (walk.found.map id).Nodup) (edge : Edge) :
    ((walk.record id edge).found.map id).Nodup := by
  rw [found_record]
  split
  · exact h
  · rename_i hnew
    rw [List.map_append, List.map_singleton]
    exact List.nodup_append.mpr ⟨h, List.nodup_singleton _, by
      rintro key hkey other hother rfl
      exact hnew (List.mem_singleton.mp hother ▸ hkey)⟩

theorem nodup_visit {maxEdges : Option Nat} {node : Node} {level : Nat} (edges : List Edge) :
    ∀ {walk : Walk Node Edge}, (walk.found.map id).Nodup →
      ((visit id adjacent maxEdges node level edges walk).found.map id).Nodup := by
  induction edges with
  | nil => exact fun h => h
  | cons edge edges ih =>
      intro walk h
      unfold visit
      simp only
      split
      · exact nodup_record h edge
      · apply ih
        rw [found_follow]
        exact nodup_record h edge

/-- No edge is found twice. -/
theorem nodup_run {rows : Node → List Edge} {maxEdges : Option Nat} {depth : Nat} (fuel : Nat) :
    ∀ {walk : Walk Node Edge}, (walk.found.map id).Nodup →
      ((run id adjacent rows maxEdges depth fuel walk).found.map id).Nodup := by
  induction fuel with
  | zero => exact fun h => h
  | succ fuel ih =>
      intro walk h
      unfold run
      split
      · exact h
      · split
        · exact h
        split
        · exact ih h
        · exact ih (nodup_visit _ h)

/-! ## The number of rows of a node -/

theorem mem_found_visit {maxEdges : Option Nat} {node : Node} {level : Nat}
    (edges : List Edge) : ∀ (walk : Walk Node Edge) {edge : Edge},
      edge ∈ (visit id adjacent maxEdges node level edges walk).found →
      edge ∈ walk.found ∨ edge ∈ edges := by
  induction edges with
  | nil => exact fun _ _ => .inl
  | cons first edges ih =>
      intro walk edge hedge
      have hfirst (h : edge ∈ (walk.record id first).found) :
          edge ∈ walk.found ∨ edge ∈ first :: edges := by
        rw [found_record] at h
        split at h
        · exact .inl h
        · exact (List.mem_append.mp h).imp_right fun h => by simp [List.mem_singleton.mp h]
      unfold visit at hedge
      simp only at hedge
      split at hedge
      · exact hfirst hedge
      · rcases ih _ hedge with hfound | hrest
        · rw [found_follow] at hfound
          exact hfirst hfound
        · exact .inr (List.mem_cons_of_mem _ hrest)

/-- What a walk finds is listed at a node. -/
theorem mem_found_run {rows : Node → List Edge} {maxEdges : Option Nat} {depth : Nat}
    (fuel : Nat) : ∀ {walk : Walk Node Edge} {edge : Edge},
      edge ∈ (run id adjacent rows maxEdges depth fuel walk).found →
      edge ∈ walk.found ∨ ∃ node, edge ∈ rows node := by
  induction fuel with
  | zero => exact fun h => .inl h
  | succ fuel ih =>
      intro walk edge hedge
      unfold run at hedge
      split at hedge
      · exact .inl hedge
      · rename_i node level frontier _
        split at hedge
        · exact .inl hedge
        split at hedge
        · have hrest := ih hedge
          exact hrest
        · rcases ih hedge with hfound | hrest
          · exact (mem_found_visit _ _ hfound).imp_right fun h => ⟨node, h⟩
          · exact .inr hrest

theorem id_mem_visit {node : Node} {level : Nat} (edges : List Edge) :
    ∀ (walk : Walk Node Edge) {edge : Edge}, edge ∈ edges →
      id edge ∈ (visit id adjacent none node level edges walk).found.map id := by
  induction edges with
  | nil => simp
  | cons first edges ih =>
      intro walk edge hedge
      unfold visit
      simp only [not_full_none, ↓reduceIte]
      rcases List.mem_cons.mp hedge with rfl | hedge
      · have hrecorded : id edge ∈ (walk.record id edge).found.map id := by
          rw [found_record]
          split
          · assumption
          · simp
        have hfront := @found_prefix_visit Node Edge Id _ _ id adjacent none node level edges
          ((walk.record id edge).follow adjacent node level edge)
        rw [found_follow] at hfront
        exact (hfront.map id).subset hrecorded
      · exact ih _ hedge

/-- A node whose rows are all found has no more rows than there are edges found. -/
theorem length_le_found_visit {node : Node} {level : Nat} {edges : List Edge}
    (hnodup : (edges.map id).Nodup) (walk : Walk Node Edge) :
    edges.length ≤ (visit id adjacent none node level edges walk).found.length := by
  have hsub : edges.map id ⊆ (visit id adjacent none node level edges walk).found.map id := by
    intro key hkey
    obtain ⟨edge, hedge, rfl⟩ := List.mem_map.mp hkey
    exact id_mem_visit edges walk hedge
  simpa using (hnodup.subperm hsub).length_le

/-- A walk that finds fewer edges than a node may list is not cut at any node. -/
theorem run_take_under {rows : Node → List Edge} (hrows : ∀ node, ((rows node).map id).Nodup)
    {limit depth : Nat} (fuel : Nat) : ∀ walk : Walk Node Edge,
      (run id adjacent (fun node => (rows node).take limit) none depth fuel walk).found.length <
        limit →
      run id adjacent (fun node => (rows node).take limit) none depth fuel walk =
        run id adjacent rows none depth fuel walk := by
  induction fuel with
  | zero => exact fun _ _ => rfl
  | succ fuel ih =>
      intro walk hunder
      unfold run at hunder ⊢
      split at hunder
      · rfl
      · rename_i node level frontier _
        simp only [not_full_none, ↓reduceIte] at hunder ⊢
        split at hunder
        · rename_i hdepth
          rw [if_pos hdepth, if_pos hdepth]
          exact ih _ hunder
        · rename_i hdepth
          rw [if_neg hdepth, if_neg hdepth]
          have hvisit := Nat.lt_of_le_of_lt (found_prefix_run fuel _).length_le hunder
          have hlength := @length_le_found_visit Node Edge Id _ _ id adjacent node level _
            ((hrows node).sublist ((List.take_sublist limit _).map id))
            { walk with frontier := frontier }
          have hall : (rows node).take limit = rows node := by
            apply List.take_of_length_le
            rw [List.length_take] at hlength
            omega
          rw [hall] at hunder ⊢
          exact ih _ hunder

/-! ## One more row to each node -/

/-- Every edge is listed at one node. -/
def Apart (id : Edge → Id) (rows : Node → List Edge) : Prop :=
  ∀ node other, ∀ edge ∈ rows node, ∀ edge' ∈ rows other, id edge = id edge' → node = other

/-- Nodes wait once, and what a waiting or an unseen node lists is not found yet. -/
structure Tidy (id : Edge → Id) (rows : Node → List Edge) (walk : Walk Node Edge) : Prop where
  nodup : (walk.frontier.map Prod.fst).Nodup
  seen : ∀ node ∈ walk.frontier.map Prod.fst, node ∈ walk.visited
  fresh : ∀ node, node ∈ walk.frontier.map Prod.fst ∨ node ∉ walk.visited →
    ∀ edge ∈ rows node, id edge ∉ walk.found.map id

/-- The node has been taken from the queue. -/
def Taken (node : Node) (walk : Walk Node Edge) : Prop :=
  node ∈ walk.visited ∧ node ∉ walk.frontier.map Prod.fst

omit [DecidableEq Id] in
theorem Taken.follow {node current : Node} {walk : Walk Node Edge} (h : Taken node walk)
    (level : Nat) (edge : Edge) : Taken node (walk.follow adjacent current level edge) := by
  obtain ⟨hvisited, hfrontier⟩ := h
  unfold Walk.follow
  split
  · exact ⟨hvisited, hfrontier⟩
  · rename_i hnew
    refine ⟨List.mem_append_left _ hvisited, ?_⟩
    simp only [List.map_append, List.map_cons, List.map_nil, List.mem_append, List.mem_singleton,
      not_or]
    refine ⟨hfrontier, ?_⟩
    rintro rfl
    exact hnew hvisited

omit [DecidableEq Node] in
theorem Taken.record {node : Node} {walk : Walk Node Edge} (h : Taken node walk) (edge : Edge) :
    Taken node (walk.record id edge) := by
  simpa [Taken] using h

omit [DecidableEq Id] in
theorem Tidy.follow {rows : Node → List Edge} {walk : Walk Node Edge} (h : Tidy id rows walk)
    (current : Node) (level : Nat) (edge : Edge) :
    Tidy id rows (walk.follow adjacent current level edge) := by
  unfold Walk.follow
  split
  · exact h
  · rename_i hnew
    refine ⟨?_, ?_, ?_⟩
    · rw [List.map_append, List.map_cons, List.map_nil]
      refine List.nodup_append.mpr ⟨h.nodup, List.nodup_singleton _, ?_⟩
      rintro node hnode other hother rfl
      have hsame : node = adjacent current edge := List.mem_singleton.mp hother
      exact hnew (hsame ▸ h.seen node hnode)
    · intro node hnode
      simp only [List.map_append, List.mem_append, List.map_cons, List.map_nil] at hnode ⊢
      exact hnode.imp_left (h.seen node)
    · intro node hnode
      simp only [List.map_append, List.mem_append, List.map_cons, List.map_nil, not_or,
        List.mem_singleton] at hnode
      apply h.fresh
      rcases hnode with (hnode | rfl) | hnode
      · exact .inl hnode
      · exact .inr hnew
      · exact .inr hnode.1

omit [DecidableEq Node] in
theorem Tidy.record {rows : Node → List Edge} (hapart : Apart id rows) {walk : Walk Node Edge}
    {node : Node} (h : Tidy id rows walk) (htaken : Taken node walk) {edge : Edge}
    (hedge : edge ∈ rows node) : Tidy id rows (walk.record id edge) where
  nodup := by simpa using h.nodup
  seen := by simpa using h.seen
  fresh := by
    intro other hother edge' hedge'
    rw [frontier_record, visited_record] at hother
    rw [found_record]
    split
    · exact h.fresh other hother edge' hedge'
    · rw [List.map_append, List.mem_append, not_or]
      refine ⟨h.fresh other hother edge' hedge', ?_⟩
      rw [List.map_singleton, List.mem_singleton]
      intro hsame
      obtain rfl := hapart other node edge' hedge' edge hedge hsame
      rcases hother with hother | hother
      · exact htaken.2 hother
      · exact hother htaken.1

theorem tidy_visit {rows : Node → List Edge} (hapart : Apart id rows) {node : Node} {level : Nat}
    (edges : List Edge) : ∀ {walk : Walk Node Edge}, Tidy id rows walk → Taken node walk →
      (∀ edge ∈ edges, edge ∈ rows node) →
      Tidy id rows (visit id adjacent none node level edges walk) := by
  induction edges with
  | nil => exact fun h _ _ => h
  | cons edge edges ih =>
      intro walk h htaken hedges
      unfold visit
      simp only [not_full_none, ↓reduceIte]
      exact ih ((h.record hapart htaken (hedges edge List.mem_cons_self)).follow node level edge)
        ((htaken.record edge).follow level edge)
        (fun other hother => hedges other (List.mem_cons_of_mem _ hother))

theorem taken_visit {node current : Node} {level : Nat} (edges : List Edge) :
    ∀ {walk : Walk Node Edge}, Taken node walk →
      Taken node (visit id adjacent none current level edges walk) := by
  induction edges with
  | nil => exact fun h => h
  | cons edge edges ih =>
      intro walk h
      unfold visit
      simp only [not_full_none, ↓reduceIte]
      exact ih ((h.record edge).follow level edge)

/-- An edge that its own node has not given is never found. -/
theorem run_misses {rows cut : Node → List Edge} (hapart : Apart id rows)
    (hcut : ∀ node, ∀ edge ∈ cut node, edge ∈ rows node) {node : Node} {edge : Edge}
    (hedge : edge ∈ rows node) {depth : Nat} (fuel : Nat) : ∀ {walk : Walk Node Edge},
      Taken node walk → id edge ∉ walk.found.map id →
      id edge ∉ (run id adjacent cut none depth fuel walk).found.map id := by
  induction fuel with
  | zero => exact fun _ hmissing => hmissing
  | succ fuel ih =>
      intro walk htaken hmissing
      unfold run
      split
      · exact hmissing
      · rename_i current level frontier hfrontier
        have hne : node ≠ current := by
          rintro rfl
          exact htaken.2 (by simp [hfrontier])
        have hrest : Taken node { walk with frontier := frontier } := by
          refine ⟨htaken.1, fun hnode => htaken.2 ?_⟩
          rw [hfrontier]
          exact List.mem_cons_of_mem _ hnode
        simp only [not_full_none, ↓reduceIte]
        split
        · exact ih hrest hmissing
        · refine ih (taken_visit _ hrest) fun hfound => ?_
          obtain ⟨other, hother, hsame⟩ := List.mem_map.mp hfound
          rcases mem_found_visit _ _ hother with hother | hother
          · exact hmissing (hsame ▸ List.mem_map_of_mem hother)
          · exact hne (hapart node current edge hedge other (hcut _ _ hother) hsame.symm)

omit [DecidableEq Node] [DecidableEq Id] in
/-- What a cut list of one node hides is not among the rows it gives. -/
theorem not_mem_take {edges : List Edge} (hnodup : (edges.map id).Nodup) {limit : Nat}
    (hlimit : limit < edges.length) : id edges[limit] ∉ (edges.take limit).map id := by
  intro hmem
  obtain ⟨edge, hedge, hsame⟩ := List.mem_map.mp hmem
  obtain ⟨i, hi, rfl⟩ := List.getElem_of_mem hedge
  rw [List.length_take] at hi
  rw [List.getElem_take] at hsame
  have hindex : (edges.map id).get ⟨i, by simp; omega⟩ =
      (edges.map id).get ⟨limit, by simpa⟩ := by
    simpa using hsame
  have := Fin.mk.inj_iff.mp (hnodup.get_inj_iff.mp hindex)
  omega

/-- When one more row to each node finds no new edge, no row was hidden. -/
theorem run_probe {rows : Node → List Edge} (hrows : ∀ node, ((rows node).map id).Nodup)
    (hapart : Apart id rows) {limit depth : Nat} (fuel : Nat) : ∀ {walk : Walk Node Edge},
      Tidy id rows walk →
      (run id adjacent (fun node => (rows node).take (limit + 1)) none depth fuel walk).found.map id
        ⊆ (run id adjacent (fun node => (rows node).take limit) none depth fuel walk).found.map id →
      run id adjacent (fun node => (rows node).take limit) none depth fuel walk =
        run id adjacent rows none depth fuel walk := by
  induction fuel with
  | zero => exact fun _ _ => rfl
  | succ fuel ih =>
      intro walk htidy hprobe
      unfold run at hprobe ⊢
      split at hprobe
      · rfl
      · rename_i node level frontier hfrontier
        have htaken : Taken node { walk with frontier := frontier } := by
          have hnodup := htidy.nodup
          rw [hfrontier, List.map_cons, List.nodup_cons] at hnodup
          exact ⟨htidy.seen node (by simp [hfrontier]), hnodup.1⟩
        have hrest : Tidy id rows { walk with frontier := frontier } := by
          have hsub : ∀ other ∈ frontier.map Prod.fst, other ∈ walk.frontier.map Prod.fst := by
            intro other hother
            rw [hfrontier]
            exact List.mem_cons_of_mem _ hother
          have hnodup := htidy.nodup
          rw [hfrontier, List.map_cons, List.nodup_cons] at hnodup
          exact ⟨hnodup.2, fun other hother => htidy.seen other (hsub other hother),
            fun other hother => htidy.fresh other (hother.imp_left (hsub other))⟩
        simp only [not_full_none, ↓reduceIte] at hprobe ⊢
        split at hprobe
        · rename_i hdepth
          rw [if_pos hdepth, if_pos hdepth]
          exact ih hrest hprobe
        · rename_i hdepth
          rw [if_neg hdepth, if_neg hdepth]
          by_cases hshort : (rows node).length ≤ limit
          · rw [List.take_of_length_le hshort, List.take_of_length_le (by omega)] at hprobe
            rw [List.take_of_length_le hshort]
            exact ih (tidy_visit hapart _ hrest htaken fun _ hedge => hedge) hprobe
          · -- the row after the cut would be found by the longer lists only
            rw [Nat.not_le] at hshort
            have hfound : id (rows node)[limit] ∈ (run id adjacent
                (fun node => (rows node).take (limit + 1)) none depth fuel
                (visit id adjacent none node level ((rows node).take (limit + 1))
                  { walk with frontier := frontier })).found.map id := by
              refine ((found_prefix_run fuel _).map id).subset (id_mem_visit _ _ ?_)
              exact List.mem_take_iff_getElem.mpr ⟨limit, by omega, rfl⟩
            refine absurd (hprobe hfound) (run_misses hapart
              (fun _ _ => List.mem_of_mem_take) (List.getElem_mem hshort) fuel
              (taken_visit _ htaken) ?_)
            intro hmem
            obtain ⟨edge, hedge, hsame⟩ := List.mem_map.mp hmem
            rcases mem_found_visit _ _ hedge with hedge | hedge
            · exact htidy.fresh node (.inl (by simp [hfrontier])) _ (List.getElem_mem hshort)
                (hsame ▸ List.mem_map_of_mem hedge)
            · exact not_mem_take (hrows node) hshort (hsame ▸ List.mem_map_of_mem hedge)

/-! ## One level -/

theorem levels_visit {node : Node} {level : Nat} (edges : List Edge) :
    ∀ (walk : Walk Node Edge), ∀ entry ∈ (visit id adjacent none node level edges walk).frontier,
      entry ∈ walk.frontier ∨ entry.2 = level + 1 := by
  induction edges with
  | nil => exact fun _ _ => .inl
  | cons edge edges ih =>
      intro walk entry hentry
      unfold visit at hentry
      simp only [not_full_none, ↓reduceIte] at hentry
      rcases ih _ entry hentry with hentry | hlevel
      · unfold Walk.follow at hentry
        split at hentry
        · exact .inl (by simpa using hentry)
        · rcases List.mem_append.mp hentry with hentry | hentry
          · exact .inl (by simpa using hentry)
          · rw [List.mem_singleton.mp hentry]
            exact .inr rfl
      · exact .inr hlevel

theorem run_deep {rows : Node → List Edge} {depth : Nat} (fuel : Nat) :
    ∀ {walk : Walk Node Edge}, (∀ entry ∈ walk.frontier, depth ≤ entry.2) →
      (run id adjacent rows none depth fuel walk).found = walk.found := by
  induction fuel with
  | zero => exact fun _ => rfl
  | succ fuel ih =>
      intro walk hdeep
      unfold run
      split
      · rfl
      · rename_i node level frontier hfrontier
        have hlevel : depth ≤ level := hdeep (node, level) (by simp [hfrontier])
        simp only [not_full_none, hlevel, ↓reduceIte]
        exact ih fun entry hentry => hdeep entry (by simp [hfrontier, hentry])

/-- A walk from one node. -/
def start (node : Node) : Walk Node Edge := { frontier := [(node, 0)], visited := [node] }

theorem run_one {rows : Node → List Edge} (node : Node) (fuel : Nat) :
    (run id adjacent rows none 1 (fuel + 1) (start node)).found =
      (visit id adjacent none node 0 (rows node)
        { frontier := [], visited := [node] }).found := by
  unfold run
  simp only [start, not_full_none, ↓reduceIte]
  apply run_deep
  intro entry hentry
  rcases levels_visit _ _ entry hentry with hnone | hlevel
  · cases hnone
  · omega

/-- At one level the probe sees all that a cut may hide. -/
theorem run_probe_one {rows : Node → List Edge} (hrows : ∀ node, ((rows node).map id).Nodup)
    {limit : Nat} (node : Node) (fuel : Nat)
    (hprobe : (run id adjacent (fun node => (rows node).take (limit + 1)) none 1 (fuel + 1)
        (start node)).found.map id ⊆
      (run id adjacent (fun node => (rows node).take limit) none 1 (fuel + 1)
        (start node)).found.map id) :
    (run id adjacent (fun node => (rows node).take limit) none 1 (fuel + 1)
        (start node)).found =
      (run id adjacent rows none 1 (fuel + 1) (start node)).found := by
  rw [run_one, run_one] at hprobe
  rw [run_one, run_one]
  by_cases hshort : (rows node).length ≤ limit
  · rw [List.take_of_length_le hshort]
  · rw [Nat.not_le] at hshort
    have hfound := hprobe (id_mem_visit _ _
      (List.mem_take_iff_getElem.mpr ⟨limit, by omega, rfl⟩ :
        (rows node)[limit] ∈ (rows node).take (limit + 1)))
    obtain ⟨edge, hedge, hsame⟩ := List.mem_map.mp hfound
    rcases mem_found_visit _ _ hedge with hnone | hedge
    · cases hnone
    · exact absurd (hsame ▸ List.mem_map_of_mem hedge) (not_mem_take (hrows node) hshort)

/-! ## Fuel -/

/-- Every node that waits has been seen, and all nodes are among `all`. -/
structure Within (all : List Node) (walk : Walk Node Edge) : Prop where
  nodup : walk.visited.Nodup
  subset : ∀ node ∈ walk.visited, node ∈ all

theorem within_visit {all : List Node} {node : Node} {level : Nat} (edges : List Edge) :
    ∀ {walk : Walk Node Edge}, Within all walk → (∀ edge ∈ edges, adjacent node edge ∈ all) →
      Within all (visit id adjacent none node level edges walk) ∧
        (visit id adjacent none node level edges walk).frontier.length + walk.visited.length =
          walk.frontier.length +
            (visit id adjacent none node level edges walk).visited.length := by
  induction edges with
  | nil => exact fun h _ => ⟨h, rfl⟩
  | cons edge edges ih =>
      intro walk h hall
      have hrecord : Within all (walk.record id edge) := by
        constructor
        · simpa using h.nodup
        · simpa using h.subset
      have hfollow : Within all ((walk.record id edge).follow adjacent node level edge) ∧
          ((walk.record id edge).follow adjacent node level edge).frontier.length +
            walk.visited.length = walk.frontier.length +
            ((walk.record id edge).follow adjacent node level edge).visited.length := by
        unfold Walk.follow
        split
        · exact ⟨hrecord, by simp⟩
        · rename_i hnew
          refine ⟨⟨?_, ?_⟩, ?_⟩
          · refine List.nodup_append.mpr ⟨hrecord.nodup, List.nodup_singleton _, ?_⟩
            rintro first hfirst other hother rfl
            exact hnew (List.mem_singleton.mp hother ▸ hfirst)
          · intro other hother
            rcases List.mem_append.mp hother with hother | hother
            · exact hrecord.subset other hother
            · rw [List.mem_singleton.mp hother]
              exact hall edge List.mem_cons_self
          · simp only [List.length_append, List.length_singleton, frontier_record,
              visited_record]
            omega
      obtain ⟨hwithin, hbalance⟩ := ih hfollow.1
        fun other hother => hall other (List.mem_cons_of_mem _ hother)
      have hfirst := hfollow.2
      unfold visit
      simp only [not_full_none, ↓reduceIte]
      exact ⟨hwithin, by omega⟩

/-- With a step for every node a walk empties its queue. -/
theorem run_done {rows : Node → List Edge} {all : List Node}
    (hall : ∀ node, ∀ edge ∈ rows node, adjacent node edge ∈ all) {depth : Nat} (fuel : Nat) :
    ∀ {walk : Walk Node Edge}, Within all walk →
      walk.frontier.length + all.length ≤ fuel + walk.visited.length →
      (run id adjacent rows none depth fuel walk).frontier = [] := by
  induction fuel with
  | zero =>
      intro walk hwithin hfuel
      have hcount := (hwithin.nodup.subperm hwithin.subset).length_le
      apply List.eq_nil_of_length_eq_zero
      change walk.frontier.length = 0
      omega
  | succ fuel ih =>
      intro walk hwithin hfuel
      unfold run
      split
      · assumption
      · rename_i node level frontier hfrontier
        have hrest : Within all { walk with frontier := frontier } :=
          ⟨hwithin.nodup, hwithin.subset⟩
        rw [hfrontier, List.length_cons] at hfuel
        simp only [not_full_none, ↓reduceIte]
        split
        · exact ih hrest (by simp only; omega)
        · obtain ⟨hvisit, hbalance⟩ := @within_visit Node Edge Id _ _ id adjacent all node level
            (rows node) { walk with frontier := frontier } hrest (hall node)
          simp only at hbalance
          exact ih hvisit (by omega)

end Walk

end Walks

end CppContextEngine.Foundation
