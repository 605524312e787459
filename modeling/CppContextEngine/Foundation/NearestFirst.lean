import CppContextEngine.Foundation.Ranking
import CppContextEngine.Foundation.Worklist

/-!
# Nearest first

A search over units that always takes the nearest pending item.  What an item
leads to depends on a symbol as well, so that a unit can be expanded several
times; the search ends when there is one unit more than its limit.
-/

namespace CppContextEngine.Foundation.Nearest

/-- Items of units, with their distances and what a symbol of one of them calls. -/
structure Graph (Item Unit Symbol : Type) where
  unit : Item → Unit
  distance : Item → Nat
  callees : Item → Symbol → List (Symbol × Item)
  calls : Unit × Symbol → List (Unit × Symbol)
  callees_calls : ∀ item symbol,
    (callees item symbol).map (fun callee => (unit callee.2, callee.1)) = calls (unit item, symbol)
  callees_distance : ∀ item symbol, ∀ callee ∈ callees item symbol,
    distance callee.2 = distance item + 1

structure Search (Item Unit Symbol : Type) where
  known : List Item
  pending : List (Item × Symbol)
  expanded : List (Unit × Symbol)

variable {Item Unit Symbol : Type} [LinearOrder Unit] [LinearOrder Symbol]
  (graph : Graph Item Unit Symbol)

namespace Graph

def node (entry : Item × Symbol) : Unit × Symbol := (graph.unit entry.1, entry.2)

/-- The order of the units. -/
def rank (item : Item) : Nat ×ₗ Unit := toLex (graph.distance item, graph.unit item)

/-- The order of the pending entries. -/
def order (entry : Item × Symbol) : Nat ×ₗ Unit ×ₗ Symbol :=
  toLex (graph.distance entry.1, toLex (graph.unit entry.1, entry.2))

/-- `known.setdefault(unit, item)` -/
def remember (item : Item) (known : List Item) : List Item :=
  if ∃ other ∈ known, graph.unit other = graph.unit item then known else known ++ [item]

/-- One round is left out of the fuel for the test that ends the loop. -/
def search (limit : Nat) : Nat → Search Item Unit Symbol → Option (Search Item Unit Symbol)
  | 0, _ => none
  | fuel + 1, state =>
      if limit < state.known.length then some state
      else
        match sortBy graph.order state.pending with
        | [] => some state
        | (current, symbol) :: pending =>
            let known := graph.remember current state.known
            if limit < known.length then some { state with known, pending }
            else if graph.node (current, symbol) ∈ state.expanded then
              search limit fuel { state with known, pending }
            else
              search limit fuel
                { known
                  pending := pending ++ (graph.callees current symbol).map Prod.swap
                  expanded := state.expanded ++ [graph.node (current, symbol)] }

end Graph

/-! ## Distances -/

/-- A call path from a root, by its length. -/
inductive Path (calls : Unit × Symbol → List (Unit × Symbol)) (roots : List (Unit × Symbol)) :
    Nat → Unit × Symbol → Prop where
  | root {node : Unit × Symbol} (h : node ∈ roots) : Path calls roots 0 node
  | call {length : Nat} {node other : Unit × Symbol} (path : Path calls roots length node)
      (h : other ∈ calls node) : Path calls roots (length + 1) other

/-- No path to the unit of an item is shorter than its distance, and one is as long. -/
structure Shortest (roots : List (Unit × Symbol)) (item : Item) : Prop where
  path : ∃ symbol, Path graph.calls roots (graph.distance item) (graph.unit item, symbol)
  least : ∀ length symbol, Path graph.calls roots length (graph.unit item, symbol) →
    graph.distance item ≤ length

/-! ## The invariant -/

/-- What holds between two rounds; `finished` are the expanded nodes with their distances. -/
structure Searched (roots : List (Unit × Symbol)) (state : Search Item Unit Symbol)
    (finished : List (Nat × Unit × Symbol)) : Prop where
  expanded : finished.map Prod.snd = state.expanded
  path : ∀ entry ∈ state.pending, Path graph.calls roots (graph.distance entry.1) (graph.node entry)
  start : ∀ root ∈ roots, (0, root) ∈ finished ∨
    ∃ entry ∈ state.pending, graph.distance entry.1 = 0 ∧ graph.node entry = root
  calls : ∀ done ∈ finished, ∀ other ∈ graph.calls done.2,
    (∃ distance ≤ done.1 + 1, (distance, other) ∈ finished) ∨
      ∃ entry ∈ state.pending, graph.distance entry.1 ≤ done.1 + 1 ∧ graph.node entry = other
  before : ∀ done ∈ finished, ∀ entry ∈ state.pending, done.1 ≤ graph.distance entry.1
  known : ∀ done ∈ finished, ∃ item ∈ state.known, graph.unit item = done.2.1
  rootsKnown : ∀ root ∈ roots, ∃ item ∈ state.known, graph.unit item = root.1
  shortest : ∀ item ∈ state.known, Shortest graph roots item
  nodup : (state.known.map graph.unit).Nodup
  sorted : ∀ item ∈ state.known, graph.distance item = 0 ∨
    ∀ entry ∈ state.pending, graph.rank item ≤ graph.rank entry.1

variable {graph} {roots : List (Unit × Symbol)} {state : Search Item Unit Symbol}
  {finished : List (Nat × Unit × Symbol)}

omit [LinearOrder Symbol] in
/-- Only the entries that are pending count, not their order. -/
theorem Searched.reorder
    (h : Searched graph roots state finished) {pending : List (Item × Symbol)}
    (hpending : ∀ entry, entry ∈ pending ↔ entry ∈ state.pending) :
    Searched graph roots { state with pending } finished where
  expanded := h.expanded
  path entry hentry := h.path entry ((hpending entry).mp hentry)
  start root hroot := by simpa only [hpending] using h.start root hroot
  calls done hdone other hother := by simpa only [hpending] using h.calls done hdone other hother
  before done hdone entry hentry := h.before done hdone entry ((hpending entry).mp hentry)
  known := h.known
  rootsKnown := h.rootsKnown
  shortest := h.shortest
  nodup := h.nodup
  sorted item hitem := (h.sorted item hitem).imp_right fun hle entry hentry =>
    hle entry ((hpending entry).mp hentry)

omit [LinearOrder Symbol] in
/-- A node on a path is finished, or something nearer is pending, or it is itself. -/
theorem Searched.covered (h : Searched graph roots state finished) {length : Nat}
    {node : Unit × Symbol} (hpath : Path graph.calls roots length node) :
    (∃ distance ≤ length, (distance, node) ∈ finished) ∨
      ∃ entry ∈ state.pending, graph.distance entry.1 < length ∨
        graph.distance entry.1 ≤ length ∧ graph.node entry = node := by
  induction hpath with
  | root hroot =>
      rcases h.start _ hroot with hdone | ⟨entry, hentry, hzero, hnode⟩
      · exact .inl ⟨0, le_rfl, hdone⟩
      · exact .inr ⟨entry, hentry, .inr ⟨hzero.le, hnode⟩⟩
  | call path hother ih =>
      rcases ih with ⟨distance, hle, hdone⟩ | ⟨entry, hentry, hnear⟩
      · rcases h.calls _ hdone _ hother with ⟨next, hnext, hdone⟩ | ⟨entry, hentry, hnext, hnode⟩
        · exact .inl ⟨next, by simp only at hnext; omega, hdone⟩
        · exact .inr ⟨entry, hentry, .inr ⟨by simp only at hnext; omega, hnode⟩⟩
      · exact .inr ⟨entry, hentry, .inl (by omega)⟩

section Round

variable {current : Item} {symbol : Symbol} {rest : List (Item × Symbol)}

theorem rank_le_of_order_le {entry other : Item × Symbol}
    (h : graph.order entry ≤ graph.order other) : graph.rank entry.1 ≤ graph.rank other.1 := by
  simp only [Graph.order, Graph.rank, Prod.Lex.toLex_le_toLex] at h ⊢
  rcases h with h | ⟨heq, h | ⟨hunit, -⟩⟩
  · exact .inl h
  · exact .inr ⟨heq, h.le⟩
  · exact .inr ⟨heq, hunit.le⟩

omit [LinearOrder Symbol] in
theorem distance_le_of_rank_le {item other : Item} (h : graph.rank item ≤ graph.rank other) :
    graph.distance item ≤ graph.distance other := by
  simp only [Graph.rank, Prod.Lex.toLex_le_toLex] at h
  rcases h with h | ⟨heq, -⟩
  · exact h.le
  · exact heq.le

/-- The unit of the nearest item is at its distance, if it was not known. -/
theorem Searched.shortest_head
    (h : Searched graph roots { state with pending := (current, symbol) :: rest } finished)
    (hleast : ∀ entry ∈ rest, graph.order (current, symbol) ≤ graph.order entry)
    (hnew : ∀ item ∈ state.known, graph.unit item ≠ graph.unit current) :
    Shortest graph roots current := by
  refine ⟨⟨symbol, h.path (current, symbol) (by simp)⟩, ?_⟩
  intro length other hpath
  rcases h.covered hpath with ⟨distance, -, hdone⟩ | ⟨entry, hentry, hnear⟩
  · obtain ⟨item, hitem, hunit⟩ := h.known _ hdone
    exact absurd hunit (hnew item hitem)
  · have hle : graph.distance current ≤ graph.distance entry.1 := by
      rcases List.mem_cons.mp hentry with rfl | hentry
      · exact le_rfl
      · exact distance_le_of_rank_le (rank_le_of_order_le (hleast entry hentry))
    omega

/-- Taking the nearest entry makes its unit known. -/
theorem Searched.remember
    (h : Searched graph roots { state with pending := (current, symbol) :: rest } finished)
    (hleast : ∀ entry ∈ rest, graph.order (current, symbol) ≤ graph.order entry) :
    Searched graph roots { state with
      known := graph.remember current state.known
      pending := (current, symbol) :: rest } finished := by
  unfold Graph.remember
  split
  case isTrue => exact h
  case isFalse hnew =>
    simp only [not_exists, not_and] at hnew
    have hshortest := h.shortest_head hleast hnew
    refine ⟨h.expanded, h.path, h.start, h.calls, h.before, ?_, ?_, ?_, ?_, ?_⟩
    · intro done hdone
      obtain ⟨item, hitem, hunit⟩ := h.known done hdone
      exact ⟨item, List.mem_append_left _ hitem, hunit⟩
    · intro root hroot
      obtain ⟨item, hitem, hunit⟩ := h.rootsKnown root hroot
      exact ⟨item, List.mem_append_left _ hitem, hunit⟩
    · intro item hitem
      rcases List.mem_append.mp hitem with hitem | hitem
      · exact h.shortest item hitem
      · rw [List.mem_singleton.mp hitem]
        exact hshortest
    · rw [List.map_append, List.nodup_append']
      refine ⟨h.nodup, by simp, ?_⟩
      simp only [List.disjoint_right, List.map_cons, List.map_nil, List.mem_singleton,
        List.mem_map, not_exists, not_and]
      rintro _ rfl item hitem hunit
      exact hnew item hitem hunit
    · intro item hitem
      rcases List.mem_append.mp hitem with hitem | hitem
      · exact h.sorted item hitem
      · rw [List.mem_singleton.mp hitem]
        refine .inr fun entry hentry => ?_
        rcases List.mem_cons.mp hentry with rfl | hentry
        · exact le_rfl
        · exact rank_le_of_order_le (hleast entry hentry)

omit [LinearOrder Symbol] in
/-- An entry whose node is expanded adds nothing. -/
theorem Searched.skip
    (h : Searched graph roots { state with pending := (current, symbol) :: rest } finished)
    (hexpanded : graph.node (current, symbol) ∈ state.expanded) :
    Searched graph roots { state with pending := rest } finished := by
  have hnear : ∃ distance ≤ graph.distance current,
      (distance, graph.node (current, symbol)) ∈ finished := by
    rw [← show finished.map Prod.snd = state.expanded from h.expanded] at hexpanded
    obtain ⟨⟨distance, node⟩, hdone, rfl⟩ := List.mem_map.mp hexpanded
    exact ⟨distance, h.before _ hdone (current, symbol) (by simp), hdone⟩
  obtain ⟨distance, hle, hdone⟩ := hnear
  refine ⟨h.expanded, ?_, ?_, ?_, ?_, h.known, h.rootsKnown, h.shortest, h.nodup, ?_⟩
  · exact fun entry hentry => h.path entry (List.mem_cons_of_mem _ hentry)
  · intro root hroot
    rcases h.start root hroot with hroot | ⟨entry, hentry, hzero, hnode⟩
    · exact .inl hroot
    · rcases List.mem_cons.mp hentry with rfl | hentry
      · have : distance = 0 := by simp only at hzero; omega
        exact .inl (hnode ▸ this ▸ hdone)
      · exact .inr ⟨entry, hentry, hzero, hnode⟩
  · intro done hfinished other hother
    rcases h.calls done hfinished other hother with hother | ⟨entry, hentry, hnext, hnode⟩
    · exact .inl hother
    · rcases List.mem_cons.mp hentry with rfl | hentry
      · exact .inl ⟨distance, hle.trans hnext, hnode ▸ hdone⟩
      · exact .inr ⟨entry, hentry, hnext, hnode⟩
  · exact fun done hdone entry hentry => h.before done hdone entry (List.mem_cons_of_mem _ hentry)
  · exact fun item hitem => (h.sorted item hitem).imp_right fun hle entry hentry =>
      hle entry (List.mem_cons_of_mem _ hentry)

/-- A new node is expanded; its callees wait one step further. -/
theorem Searched.expand
    (h : Searched graph roots { state with pending := (current, symbol) :: rest } finished)
    (hleast : ∀ entry ∈ rest, graph.order (current, symbol) ≤ graph.order entry)
    (hknown : ∃ item ∈ state.known, graph.unit item = graph.unit current) :
    Searched graph roots
      { known := state.known
        pending := rest ++ (graph.callees current symbol).map Prod.swap
        expanded := state.expanded ++ [graph.node (current, symbol)] }
      (finished ++ [(graph.distance current, graph.node (current, symbol))]) := by
  have hcallee : ∀ entry ∈ (graph.callees current symbol).map Prod.swap,
      graph.distance entry.1 = graph.distance current + 1 ∧
        graph.node entry ∈ graph.calls (graph.node (current, symbol)) := by
    intro entry hentry
    obtain ⟨callee, hcallee, rfl⟩ := List.mem_map.mp hentry
    refine ⟨graph.callees_distance current symbol callee hcallee, ?_⟩
    rw [Graph.node, ← graph.callees_calls]
    exact List.mem_map_of_mem hcallee
  have hcalls : ∀ other ∈ graph.calls (graph.node (current, symbol)),
      ∃ entry ∈ (graph.callees current symbol).map Prod.swap, graph.node entry = other := by
    intro other hother
    rw [Graph.node, ← graph.callees_calls] at hother
    obtain ⟨callee, hcallee, rfl⟩ := List.mem_map.mp hother
    exact ⟨callee.swap, List.mem_map_of_mem hcallee, rfl⟩
  have hfar : ∀ entry ∈ rest, graph.distance current ≤ graph.distance entry.1 :=
    fun entry hentry => distance_le_of_rank_le (rank_le_of_order_le (hleast entry hentry))
  have hpath := h.path (current, symbol) (by simp)
  have hexpanded : finished.map Prod.snd = state.expanded := h.expanded
  refine ⟨by simp [hexpanded], ?_, ?_, ?_, ?_, ?_, h.rootsKnown, h.shortest, h.nodup, ?_⟩
  · intro entry hentry
    rcases List.mem_append.mp hentry with hentry | hentry
    · exact h.path entry (List.mem_cons_of_mem _ hentry)
    · obtain ⟨hdistance, hnode⟩ := hcallee entry hentry
      rw [hdistance]
      exact .call hpath hnode
  · intro root hroot
    rcases h.start root hroot with hroot | ⟨entry, hentry, hzero, hnode⟩
    · exact .inl (List.mem_append_left _ hroot)
    · rcases List.mem_cons.mp hentry with rfl | hentry
      · exact .inl (by simp [← hzero, ← hnode])
      · exact .inr ⟨entry, List.mem_append_left _ hentry, hzero, hnode⟩
  · intro done hdone other hother
    rcases List.mem_append.mp hdone with hdone | hdone
    · rcases h.calls done hdone other hother with ⟨distance, hle, hother⟩ |
        ⟨entry, hentry, hnext, hnode⟩
      · exact .inl ⟨distance, hle, List.mem_append_left _ hother⟩
      · rcases List.mem_cons.mp hentry with rfl | hentry
        · exact .inl ⟨graph.distance current, hnext, by simp [← hnode]⟩
        · exact .inr ⟨entry, List.mem_append_left _ hentry, hnext, hnode⟩
    · rw [List.mem_singleton.mp hdone] at hother ⊢
      obtain ⟨entry, hentry, hnode⟩ := hcalls other hother
      exact .inr ⟨entry, List.mem_append_right _ hentry, (hcallee entry hentry).1.le, hnode⟩
  · intro done hdone entry hentry
    have hdone : done.1 ≤ graph.distance current := by
      rcases List.mem_append.mp hdone with hdone | hdone
      · exact h.before done hdone (current, symbol) (by simp)
      · rw [List.mem_singleton.mp hdone]
    rcases List.mem_append.mp hentry with hentry | hentry
    · exact hdone.trans (hfar entry hentry)
    · rw [(hcallee entry hentry).1]
      omega
  · intro done hdone
    rcases List.mem_append.mp hdone with hdone | hdone
    · exact h.known done hdone
    · rw [List.mem_singleton.mp hdone]
      exact hknown
  · intro item hitem
    refine (h.sorted item hitem).imp_right fun hle entry hentry => ?_
    rcases List.mem_append.mp hentry with hentry | hentry
    · exact hle entry (List.mem_cons_of_mem _ hentry)
    · have hcurrent := distance_le_of_rank_le (hle (current, symbol) (by simp))
      have hnext := (hcallee entry hentry).1
      simp only [Graph.rank, Prod.Lex.toLex_le_toLex]
      exact .inl (by simp only at hcurrent; omega)

end Round

/-! ## The whole search -/

/-- The units that a search ends with: all of them, or the nearest ones and one more. -/
structure Found (graph : Graph Item Unit Symbol) (roots : List (Unit × Symbol)) (limit : Nat)
    (known : List Item) : Prop where
  shortest : ∀ item ∈ known, Shortest graph roots item
  nodup : (known.map graph.unit).Nodup
  rootsKnown : ∀ root ∈ roots, ∃ item ∈ known, graph.unit item = root.1
  bounded : known.length ≤ limit + 1
  complete : known.length ≤ limit → ∀ length node, Path graph.calls roots length node →
    ∃ item ∈ known, graph.unit item = node.1
  nearest : limit < known.length → ∃ last ∈ known,
    (∀ item ∈ known, graph.rank item ≤ graph.rank last) ∧
    ∀ length node, Path graph.calls roots length node →
      (∃ item ∈ known, graph.unit item = node.1) ∨ graph.rank last < toLex (length, node.1)

omit [LinearOrder Symbol] in
/-- Nothing is pending: every unit on a path is known. -/
theorem Searched.found {limit : Nat} (h : Searched graph roots state finished)
    (hpending : state.pending = []) (hlimit : state.known.length ≤ limit) :
    Found graph roots limit state.known where
  shortest := h.shortest
  nodup := h.nodup
  rootsKnown := h.rootsKnown
  bounded := by omega
  complete := by
    intro _ length node hpath
    rcases h.covered hpath with ⟨distance, -, hdone⟩ | ⟨entry, hentry, -⟩
    · exact h.known _ hdone
    · simp [hpending] at hentry
  nearest := by omega

/-- The unit that is one too many is the last in the order. -/
theorem Searched.overflow {limit : Nat} {current : Item} {symbol : Symbol}
    {rest : List (Item × Symbol)}
    (h : Searched graph roots { state with pending := (current, symbol) :: rest } finished)
    (hleast : ∀ entry ∈ rest, graph.order (current, symbol) ≤ graph.order entry)
    (hlimit : state.known.length ≤ limit)
    (hover : limit < (graph.remember current state.known).length) :
    Found graph roots limit (graph.remember current state.known) := by
  have hremember := h.remember hleast
  have hnew : ∀ item ∈ state.known, graph.unit item ≠ graph.unit current := by
    intro item hitem hunit
    have : graph.remember current state.known = state.known := if_pos ⟨item, hitem, hunit⟩
    rw [this] at hover
    omega
  have hknown : graph.remember current state.known = state.known ++ [current] := by
    unfold Graph.remember
    rw [if_neg]
    simpa using hnew
  have hmem : current ∈ graph.remember current state.known := by simp [hknown]
  refine ⟨hremember.shortest, hremember.nodup, hremember.rootsKnown, ?_, by omega, ?_⟩
  · rw [hknown, List.length_append, List.length_singleton]
    omega
  · intro _
    -- the roots are known, so the new unit is not at distance 0
    have hpositive : 0 < graph.distance current := by
      obtain ⟨found, hpath⟩ := (hremember.shortest current hmem).path
      rcases Nat.eq_zero_or_pos (graph.distance current) with hzero | hpositive
      · rw [hzero] at hpath
        cases hpath with
        | root hroot =>
            obtain ⟨item, hitem, hunit⟩ := h.rootsKnown _ hroot
            exact absurd hunit (hnew item hitem)
      · exact hpositive
    refine ⟨current, hmem, ?_, ?_⟩
    · intro item hitem
      rcases hremember.sorted item hitem with hzero | hle
      · simp only [Graph.rank, Prod.Lex.toLex_le_toLex]
        exact .inl (by omega)
      · exact hle (current, symbol) (by simp)
    · intro length node hpath
      rcases h.covered hpath with ⟨distance, -, hdone⟩ | ⟨entry, hentry, hnear⟩
      · obtain ⟨item, hitem, hunit⟩ := h.known _ hdone
        exact .inl ⟨item, by simp [hknown, hitem], hunit⟩
      · have hle : graph.rank current ≤ graph.rank entry.1 := by
          rcases List.mem_cons.mp hentry with rfl | hentry
          · exact le_rfl
          · exact rank_le_of_order_le (hleast entry hentry)
        by_cases hsame : graph.unit current = node.1
        · exact .inl ⟨current, hmem, hsame⟩
        · refine .inr ?_
          simp only [Graph.rank, Prod.Lex.toLex_le_toLex, Prod.Lex.toLex_lt_toLex] at hle ⊢
          rcases hnear with hlt | ⟨hlength, hnode⟩
          · exact .inl (by omega)
          · have hunit : graph.unit entry.1 = node.1 := congrArg Prod.fst hnode
            rw [hunit] at hle
            rcases hle with hlt | ⟨heq, hunitle⟩
            · exact .inl (by omega)
            · rcases Nat.lt_or_ge (graph.distance current) length with hlt | hge
              · exact .inl hlt
              · exact .inr ⟨by omega, lt_of_le_of_ne hunitle hsame⟩

/-- Within a finite set of nodes a search ends, with the nearest units. -/
theorem search_found {limit : Nat} {all : List (Unit × Symbol)} (hall : all.Nodup)
    (hcalls : ∀ node, ∀ other ∈ graph.calls node, other ∈ all) (fuel : Nat) :
    ∀ {state : Search Item Unit Symbol} {finished : List (Nat × Unit × Symbol)},
      Searched graph roots state finished → state.known.length ≤ limit →
      (∀ entry ∈ state.pending, graph.node entry ∈ all) →
      stepsLeft graph.calls all (state.pending.map graph.node) state.expanded < fuel →
        ∃ final, graph.search limit fuel state = some final ∧
          (final.known.length ≤ limit → final.pending = []) ∧
          Found graph roots limit final.known := by
  induction fuel with
  | zero => intro state finished h hlimit hpending hfuel; omega
  | succ fuel ih =>
      intro state finished h hlimit hpending hfuel
      unfold Graph.search
      rw [if_neg (by omega)]
      have hperm : (sortBy graph.order state.pending).Perm state.pending := sortBy_perm _ _
      have hsorted := sortBy_pairwise graph.order state.pending
      cases hsort : sortBy graph.order state.pending with
      | nil =>
          rw [hsort] at hperm
          exact ⟨state, rfl, fun _ => hperm.symm.eq_nil, h.found hperm.symm.eq_nil hlimit⟩
      | cons head rest =>
          obtain ⟨current, symbol⟩ := head
          rw [hsort] at hperm hsorted
          have hleast := (List.pairwise_cons.mp hsorted).1
          have hhead : Searched graph roots { state with pending := (current, symbol) :: rest }
              finished := h.reorder fun entry => hperm.mem_iff
          have hremember := hhead.remember hleast
          let remembered : Search Item Unit Symbol :=
            ⟨graph.remember current state.known, rest, state.expanded⟩
          have hmem : ∀ entry ∈ (current, symbol) :: rest, graph.node entry ∈ all :=
            fun entry hentry => hpending entry (hperm.mem_iff.mp hentry)
          have hlength : rest.length + 1 = state.pending.length := by
            simpa using hperm.length_eq
          simp only
          by_cases hover : limit < (graph.remember current state.known).length
          · rw [if_pos hover]
            exact ⟨_, rfl, fun hle => absurd hover (not_lt.mpr hle),
              hhead.overflow hleast hlimit hover⟩
          · rw [if_neg hover]
            by_cases hexpanded : graph.node (current, symbol) ∈ state.expanded
            · rw [if_pos hexpanded]
              have hskip := @Searched.skip _ _ _ _ graph roots remembered finished current symbol rest
                hremember hexpanded
              apply ih hskip (by simp only [remembered]; omega)
              · exact fun entry hentry => hmem entry (List.mem_cons_of_mem _ hentry)
              · simp only [stepsLeft, List.length_map, remembered] at hfuel ⊢
                omega
            · rw [if_neg hexpanded]
              have hknown : ∃ item ∈ graph.remember current state.known,
                  graph.unit item = graph.unit current := by
                unfold Graph.remember
                split
                case isTrue h => exact h
                case isFalse => exact ⟨current, by simp, rfl⟩
              have hexpand := @Searched.expand _ _ _ _ _ graph roots remembered finished current
                symbol rest hremember hleast hknown
              apply ih hexpand (by simp only [remembered]; omega)
              · intro entry hentry
                rcases List.mem_append.mp hentry with hentry | hentry
                · exact hmem entry (List.mem_cons_of_mem _ hentry)
                · obtain ⟨callee, hcallee, rfl⟩ := List.mem_map.mp hentry
                  apply hcalls (graph.node (current, symbol))
                  rw [Graph.node, ← graph.callees_calls]
                  exact List.mem_map_of_mem hcallee
              · have hmoves := @stepsLeft_visit _ _ graph.calls all (rest.map graph.node)
                  state.expanded hall (graph.node (current, symbol)) (hmem _ (by simp)) hexpanded
                have hadded : (((graph.callees current symbol).map Prod.swap).map graph.node).length =
                    (graph.calls (graph.node (current, symbol))).length := by
                  rw [Graph.node, ← graph.callees_calls]
                  simp
                simp only [stepsLeft, List.length_map, List.length_append, List.length_cons,
                  List.map_append, remembered] at hfuel hmoves hadded ⊢
                omega

/-! ## The cut -/

omit [LinearOrder Symbol] in
/-- The first `limit` units of a search are the nearest ones that there are. -/
theorem Found.take {limit : Nat} {known : List Item} (h : Found graph roots limit known) :
    ((sortBy graph.rank known).take limit).Pairwise
        (fun item other => graph.rank item < graph.rank other) ∧
      (∀ item ∈ (sortBy graph.rank known).take limit, Shortest graph roots item) ∧
      (∀ length node, Path graph.calls roots length node →
        (∃ item ∈ (sortBy graph.rank known).take limit, graph.unit item = node.1) ∨
          ((sortBy graph.rank known).take limit).length = limit ∧
            ∀ item ∈ (sortBy graph.rank known).take limit,
              graph.rank item < toLex (length, node.1)) := by
  have hranks : (known.map graph.rank).Nodup := by
    have : known.map graph.unit = (known.map graph.rank).map fun rank => (ofLex rank).2 := by
      simp [Graph.rank]
    exact List.Nodup.of_map _ (this ▸ h.nodup)
  have hsorted := pairwise_lt_sortBy graph.rank hranks
  refine ⟨hsorted.sublist (List.take_sublist _ _), ?_, ?_⟩
  · exact fun item hitem => h.shortest item ((mem_sortBy _).mp (List.mem_of_mem_take hitem))
  · intro length node hpath
    rcases Nat.lt_or_ge limit known.length with hlt | hge
    swap
    · obtain ⟨item, hitem, hunit⟩ := h.complete hge length node hpath
      rw [List.take_of_length_le (by simpa using hge)]
      exact .inl ⟨item, (mem_sortBy _).mpr hitem, hunit⟩
    · obtain ⟨last, hlast, hgreatest, hbeyond⟩ := h.nearest hlt
      have hlength : (sortBy graph.rank known).length = limit + 1 := by
        have := h.bounded
        rw [length_sortBy]
        omega
      rw [← List.take_append_drop limit (sortBy graph.rank known), List.pairwise_append] at hsorted
      -- the one unit that is cut is the last
      obtain ⟨cut, hcut⟩ : ∃ cut, (sortBy graph.rank known).drop limit = [cut] := by
        rw [← List.length_eq_one_iff, List.length_drop]
        omega
      have hknown : ∀ item ∈ known, item ∈ (sortBy graph.rank known).take limit ∨ item = cut := by
        intro item hitem
        rw [← mem_sortBy graph.rank, ← List.take_append_drop limit (sortBy graph.rank known),
          List.mem_append, hcut, List.mem_singleton] at hitem
        exact hitem
      have hcutmem : cut ∈ known := by
        rw [← mem_sortBy graph.rank]
        apply List.mem_of_mem_drop (i := limit)
        simp [hcut]
      have hfirst : ∀ item ∈ (sortBy graph.rank known).take limit,
          graph.rank item < graph.rank cut := by
        intro item hitem
        exact hsorted.2.2 item hitem cut (by simp [hcut])
      have hsame : last = cut := by
        rcases hknown last hlast with hlast | hlast
        · exact absurd (hgreatest cut hcutmem) (not_le.mpr (hfirst last hlast))
        · exact hlast
      subst hsame
      have htake : ((sortBy graph.rank known).take limit).length = limit := by
        rw [List.length_take]
        omega
      rcases hbeyond length node hpath with ⟨item, hitem, hunit⟩ | hbeyond
      · rcases hknown item hitem with hitem | rfl
        · exact .inl ⟨item, hitem, hunit⟩
        · refine .inr ⟨htake, fun other hother => (hfirst other hother).trans_le ?_⟩
          have hleast := (h.shortest item hitem).least length node.2 (by rw [hunit]; exact hpath)
          simp only [Graph.rank, Prod.Lex.toLex_le_toLex, hunit]
          rcases hleast.lt_or_eq with hless | heq
          · exact .inl hless
          · exact .inr ⟨heq, le_rfl⟩
      · exact .inr ⟨htake, fun other hother => (hfirst other hother).trans hbeyond⟩

end CppContextEngine.Foundation.Nearest
