import Mathlib.Algebra.Order.BigOperators.Group.Finset
import Mathlib.Data.Finset.Card
import Wiring.Proofs.Search

/-!
What the depth-first search finds. Each path that it gives back is a cycle of the graph, and where
the graph has a cycle, one is found: the nodes that the search has left lead only to nodes left
before them, but for the edges that closed a cycle. So no cycle is found exactly in a graph that
has none.
-/

namespace Wiring

/-- Some edges, one after the other, lead from a node to another. -/
abbrev LeadsTo (successors : Nat → List Nat) : Nat → Nat → Prop :=
  Relation.TransGen fun node next => next ∈ successors node

/-- Distinct nodes, each with an edge to the next one and the last with an edge to the first. -/
structure Circular (successors : Nat → List Nat) (cycle : List Nat) : Prop where
  nonempty : cycle ≠ []
  distinct : cycle.Nodup
  linked : cycle.IsChain fun node next => next ∈ successors node
  closed : cycle.head nonempty ∈ successors (cycle.getLast nonempty)

section Graph

variable {size : Nat} {successors : Nat → List Nat}

theorem Circular.leadsTo {cycle : List Nat} (circular : Circular successors cycle)
    {node other : Nat} (member : node ∈ cycle) (target : other ∈ cycle) :
    LeadsTo successors node other := by
  obtain ⟨nonempty, distinct, linked, closed⟩ := circular
  have ordered : cycle.Pairwise (LeadsTo successors) :=
    (linked.imp fun _ _ edge => Relation.TransGen.single edge).pairwise
  have onward : Relation.ReflTransGen (fun node next => next ∈ successors node) node
      (cycle.getLast nonempty) := by
    rw [← List.dropLast_concat_getLast nonempty] at member ordered
    rcases List.mem_append.mp member with before | last
    · exact ((List.pairwise_append.mp ordered).2.2 node before _ (by simp)).to_reflTransGen
    · rw [List.mem_singleton.mp last]
  have again : Relation.ReflTransGen (fun node next => next ∈ successors node)
      (cycle.head nonempty) other := by
    rw [← List.cons_head_tail nonempty] at target ordered
    rcases List.mem_cons.mp target with first | later
    · rw [first]
    · exact ((List.pairwise_cons.mp ordered).1 other later).to_reflTransGen
  exact .trans_right onward (.trans_left (.single closed) again)

/-- What ends cannot be taken from a node back to it. -/
theorem not_transGen_of_acc {leads : Nat → Nat → Prop} {node : Nat}
    (ends : Acc (fun next node => leads node next) node) : ¬ Relation.TransGen leads node node := by
  intro loop
  have swapped : Relation.TransGen (fun next node => leads node next) node node :=
    Relation.transGen_swap.mp loop
  have chain := ends.transGen
  clear ends loop
  induction chain with
  | intro node _ ih => exact ih node swapped swapped

/-- Steps of which none can be taken for ever, from numbers below a bound to such numbers, can be
ranked: each goes down, and no rank reaches the bound. -/
theorem exists_rank {leads : Nat → Nat → Prop}
    (contained : ∀ node < size, ∀ next, leads node next → next < size)
    (ends : ∀ node < size, Acc (fun next node => leads node next) node) :
    ∃ rank : Nat → Nat, ∀ node < size,
      rank node < size ∧ ∀ next, leads node next → rank next < rank node := by
  classical
  let below (node : Nat) : Finset Nat :=
    (Finset.range size).filter fun other => Relation.TransGen leads node other
  have irreflexive (node : Nat) (inside : node < size) : ¬ Relation.TransGen leads node node :=
    not_transGen_of_acc (ends node inside)
  refine ⟨fun node => (below node).card, fun node inside => ⟨?_, fun next led => ?_⟩⟩
  · calc
      (below node).card < (Finset.range size).card := by
        refine Finset.card_lt_card ⟨Finset.filter_subset _ _, fun whole => ?_⟩
        have self := whole (Finset.mem_range.mpr inside)
        exact irreflexive node inside (Finset.mem_filter.mp self).2
      _ = size := Finset.card_range size
  · have within : next < size := contained node inside next led
    refine Finset.card_lt_card ⟨fun other member => ?_, fun whole => ?_⟩
    · obtain ⟨known, reached⟩ := Finset.mem_filter.mp member
      exact Finset.mem_filter.mpr ⟨known, .head led reached⟩
    · have self : next ∈ below node :=
        Finset.mem_filter.mpr ⟨Finset.mem_range.mpr within, .single led⟩
      exact irreflexive next within (Finset.mem_filter.mp (whole self)).2

end Graph

namespace Search

variable {size : Nat} {successors : Nat → List Nat} {search after : Search}

/-- A node of the path is found on it, and the cycle that an edge to it closes begins with it. -/
theorem exists_place {node : Nat} (member : node ∈ search.path) :
    ∃ place, search.path.findIdx? (fun visited => visited == node) = some place ∧
      search.closing node = search.path.drop place ∧
      (search.path.drop place).head? = some node := by
  have listed : (search.path.findIdx? fun visited => visited == node).isSome = true := by
    simpa [List.findIdx?_isSome] using member
  obtain ⟨place, found⟩ := Option.isSome_iff_exists.mp listed
  obtain ⟨short, same, -⟩ := List.findIdx?_eq_some_iff_getElem.mp found
  refine ⟨place, found, by simp [closing, position, found], ?_⟩
  rw [List.head?_drop, List.getElem?_eq_getElem short, eq_of_beq same]

theorem mem_path {node : Nat} : node ∈ search.path ↔ node ∈ search.stack.map Prod.fst := by
  simp [path]

/-- An edge from the last node of the path back to a node of it closes a cycle. -/
theorem Placed.circular (placed : Placed size successors search) {node next : Nat}
    {others : List Nat} {below : List (Nat × List Nat)}
    (top : search.stack = (node, next :: others) :: below)
    (active : search.marks next = .active) :
    Circular successors (search.closing next) ∧ (∀ other ∈ search.closing next, other < size) ∧
      (search.closing next).head? = some next ∧ (search.closing next).getLast? = some node := by
  obtain ⟨place, -, same, first⟩ := exists_place (mem_path.mpr ((placed.active next).mp active))
  have suffix : search.closing next <:+ search.path := same ▸ List.drop_suffix place search.path
  have nonempty : search.closing next ≠ [] := by
    rw [same]
    rintro empty
    simp [empty] at first
  have last : (search.closing next).getLast? = some node := by
    obtain ⟨before, whole⟩ := suffix
    have ends : search.path.getLast? = some node := by simp [path, top]
    rw [← whole, List.getLast?_append_of_ne_nil _ nonempty] at ends
    exact ends
  rw [← same] at first
  refine ⟨⟨nonempty, ?_, ?_, ?_⟩, fun other member => ?_, first, last⟩
  · exact (List.nodup_reverse.mpr placed.trail.distinct).sublist suffix.sublist
  · have linked : search.path.IsChain fun lower upper => upper ∈ successors lower :=
      List.isChain_reverse.mpr placed.trail.linked
    exact linked.suffix suffix
  · have edge := (placed.edge top).2
    rw [List.head?_eq_some_head nonempty, Option.some.injEq] at first
    rw [List.getLast?_eq_some_getLast nonempty, Option.some.injEq] at last
    rwa [first, last]
  · obtain ⟨frame, known, rfl⟩ := List.mem_map.mp (mem_path.mp (suffix.subset member))
    exact placed.trail.inside frame known

/-- The edge from a node to the next one closed a cycle that was found. -/
def Closes (cycles : List (List Nat)) (node next : Nat) : Prop :=
  ∃ cycle ∈ cycles, cycle.head? = some next ∧ cycle.getLast? = some node

/-- Each edge of a node that is left leads to one left before it, or closed a cycle. -/
def Unwinds (successors : Nat → List Nat) (cycles : List (List Nat)) : List Nat → Prop
  | [] => True
  | node :: earlier =>
    (∀ next ∈ successors node, next ∈ earlier ∨ Closes cycles node next) ∧
      Unwinds successors cycles earlier

/-- Every edge of a node on the path is still to be followed, leads to a node that is left already,
closed a cycle, or leads to the next node of the path. -/
def Waits (successors : Nat → List Nat) (cycles : List (List Nat)) (left : List Nat) :
    Option Nat → List (Nat × List Nat) → Prop
  | _, [] => True
  | above, (node, rest) :: below =>
    (∀ next ∈ successors node,
      next ∈ rest ∨ next ∈ left ∨ Closes cycles node next ∨ above = some next) ∧
      Waits successors cycles left (some node) below

/-- What a search has found, with the nodes that it has left, the last one first. -/
structure Settled (size : Nat) (successors : Nat → List Nat) (search : Search)
    (left : List Nat) : Prop where
  found : ∀ cycle ∈ search.cycles, Circular successors cycle ∧ ∀ node ∈ cycle, node < size
  done : ∀ node, search.marks node = .done ↔ node ∈ left
  unwinds : Unwinds successors search.cycles left
  waits : Waits successors search.cycles left none search.stack

variable {cycles cycles' : List (List Nat)} {left left' : List Nat}

theorem Closes.mono {node next : Nat} (closes : Closes cycles node next)
    (more : cycles ⊆ cycles') : Closes cycles' node next := by
  obtain ⟨cycle, found, ends⟩ := closes
  exact ⟨cycle, more found, ends⟩

theorem Unwinds.mono (unwinds : Unwinds successors cycles left) (more : cycles ⊆ cycles') :
    Unwinds successors cycles' left := by
  induction left with
  | nil => trivial
  | cons node earlier ih =>
    refine ⟨fun next edge => ?_, ih unwinds.2⟩
    exact (unwinds.1 next edge).imp_right fun closes => closes.mono more

theorem Waits.mono {above above' : Option Nat} {stack : List (Nat × List Nat)}
    (waits : Waits successors cycles left above stack) (more : cycles ⊆ cycles')
    (gone : left ⊆ left') (top : ∀ node, above = some node → node ∈ left' ∨ above' = some node) :
    Waits successors cycles' left' above' stack := by
  induction stack generalizing above above' with
  | nil => trivial
  | cons frame below ih =>
    obtain ⟨node, rest⟩ := frame
    refine ⟨fun next edge => ?_, ih waits.2 fun _ same => .inr same⟩
    rcases waits.1 next edge with pending | before | closes | here
    · exact .inl pending
    · exact .inr (.inl (gone before))
    · exact .inr (.inr (.inl (closes.mono more)))
    · exact .inr ((top next here).imp_right .inr)

/-- The first of the edges still to be followed is accounted for. -/
theorem Waits.take {node next : Nat} {others : List Nat} {below : List (Nat × List Nat)}
    {above : Option Nat}
    (waits : Waits successors cycles left none ((node, next :: others) :: below))
    (more : cycles ⊆ cycles')
    (accounted : next ∈ left ∨ Closes cycles' node next ∨ above = some next) :
    Waits successors cycles' left above ((node, others) :: below) := by
  refine ⟨fun other edge => ?_, waits.2.mono more (fun _ gone => gone) fun _ same => .inr same⟩
  rcases waits.1 other edge with pending | before | closes | here
  · rcases List.mem_cons.mp pending with rfl | later
    · exact .inr accounted
    · exact .inl later
  · exact .inr (.inl before)
  · exact .inr (.inr (.inl (closes.mono more)))
  · cases here

theorem settled_start : Settled size successors (start size) [] where
  found _ member := nomatch member
  done node := by simp [start]
  unwinds := trivial
  waits := trivial

/-- Coming to an unseen node leaves the nodes that are done as they are. -/
theorem done_enter (successors : Nat → List Nat)
    (done : ∀ other, search.marks other = .done ↔ other ∈ left) {node : Nat}
    (unseen : search.marks node = .unseen) (other : Nat) :
    (search.enter successors node).marks other = .done ↔ other ∈ left := by
  rw [← done other]
  by_cases same : other = node
  · simp [Search.enter, Search.mark, same, unseen]
  · simp [Search.enter, Search.mark, same]

theorem Settled.moves (settled : Settled size successors search left)
    (placed : Placed size successors search) (moves : Moves successors search after) :
    ∃ left, Settled size successors after left := by
  obtain ⟨found, done, unwinds, waits⟩ := settled
  cases moves with
  | rest | skip => exact ⟨left, found, done, unwinds, waits⟩
  | restart pending stack unseen =>
    rw [stack] at waits
    refine ⟨left, found, done_enter successors done unseen, unwinds, fun next edge => .inl edge, ?_⟩
    rw [stack]
    trivial
  | leave top =>
    rename_i node below
    rw [top] at waits
    refine ⟨node :: left, found, fun other => ?_, ⟨fun next edge => ?_, unwinds⟩, ?_⟩
    · by_cases same : other = node
      · simp [Search.mark, same]
      · simp [Search.mark, same, done]
    · simpa [Search.mark] using waits.1 next edge
    · apply waits.2.mono (fun _ known => known) fun _ gone => List.mem_cons_of_mem _ gone
      intro other same
      obtain rfl := Option.some.inj same
      exact .inl List.mem_cons_self
  | descend top unseen =>
    rw [top] at waits
    refine ⟨left, found, done_enter successors done unseen, unwinds, fun next edge => .inl edge, ?_⟩
    exact waits.take (fun _ known => known) (.inr (.inr rfl))
  | close top active =>
    rename_i node next others below
    rw [top] at waits
    obtain ⟨circular, inside, first, last⟩ := placed.circular top active
    have more : search.cycles ⊆ search.cycles ++ [search.closing next] :=
      List.subset_append_left _ _
    refine ⟨left, fun cycle member => ?_, done, unwinds.mono more, waits.take more ?_⟩
    · rcases List.mem_append.mp member with before | here
      · exact found cycle before
      · obtain rfl := List.mem_singleton.mp here
        exact ⟨circular, inside⟩
    · exact .inr (.inl ⟨search.closing next, by simp, first, last⟩)
  | pass top gone =>
    rename_i node next others below
    rw [top] at waits
    exact ⟨left, found, done, unwinds,
      waits.take (fun _ known => known) (.inl ((done next).mp gone))⟩

theorem settled_run (contained : Contained size successors) (count : Nat) :
    ∃ left, Settled size successors ((start size).run successors count) left := by
  induction count with
  | zero => exact ⟨[], settled_start⟩
  | succ count ih =>
    obtain ⟨left, settled⟩ := ih
    rw [run_add]
    exact settled.moves (placed_run contained count) (step_moves successors _)

/-- Where each node of a part of the graph has an edge to a node of that part, and the search has
left one of them, an edge within the part closed a cycle. -/
theorem Unwinds.exists_closes (unwinds : Unwinds successors cycles left) {part : Nat → Prop}
    (onward : ∀ node, part node → ∃ next ∈ successors node, part next) {node : Nat}
    (member : node ∈ left) (inside : part node) :
    ∃ last first, part last ∧ part first ∧ Closes cycles last first := by
  induction left generalizing node with
  | nil => cases member
  | cons latest earlier ih =>
    rcases List.mem_cons.mp member with rfl | before
    · obtain ⟨next, edge, within⟩ := onward node inside
      rcases unwinds.1 next edge with gone | closes
      · exact ih unwinds.2 gone within
      · exact ⟨node, next, inside, within, closes⟩
    · exact ih unwinds.2 before inside

/-- A search at its end has left every node. -/
theorem exists_left (contained : Contained size successors) :
    ∃ left, Settled size successors (complete size successors) left ∧
      ∀ node < size, node ∈ left := by
  obtain ⟨left, settled⟩ : ∃ left, Settled size successors (complete size successors) left :=
    settled_run contained _
  obtain ⟨roots, stack⟩ := finished_complete contained
  have placed : Placed size successors (complete size successors) := placed_run contained _
  refine ⟨left, settled, fun node inside => (settled.done node).mp ?_⟩
  have covered := placed.covered node inside
  have active := placed.active node
  rw [roots] at covered
  rw [stack] at active
  cases seen : (complete size successors).marks node with
  | unseen => simp [seen] at covered
  | active => simp [seen] at active
  | done => exact rfl

theorem exists_cycle (contained : Contained size successors) {part : Nat → Prop}
    (onward : ∀ node, part node → ∃ next ∈ successors node, part next) {node : Nat}
    (within : node < size) (inside : part node) :
    ∃ cycle ∈ findCycles size successors, ∃ first ∈ cycle, part first := by
  obtain ⟨left, settled, all⟩ := exists_left contained
  obtain ⟨last, first, -, found, cycle, member, head, -⟩ :=
    settled.unwinds.exists_closes onward (all node within) inside
  exact ⟨cycle, member, first, List.mem_of_head? head, found⟩

theorem cycles_of_acyclic (contained : Contained size successors)
    (acyclic : ∀ node, ¬ Relation.TransGen (fun node next => next ∈ successors node) node node) :
    (complete size successors).cycles = [] := by
  obtain ⟨left, settled, -⟩ := exists_left contained
  refine List.eq_nil_iff_forall_not_mem.mpr fun cycle member => ?_
  have circular := (settled.found cycle member).1
  have first := List.head_mem circular.nonempty
  exact acyclic _ (circular.leadsTo first first)

end Search

variable {size : Nat} {successors : Nat → List Nat}

theorem circular_of_mem (contained : Contained size successors) {cycle : List Nat}
    (member : cycle ∈ findCycles size successors) :
    Circular successors cycle ∧ ∀ node ∈ cycle, node < size := by
  obtain ⟨left, settled, -⟩ := Search.exists_left contained
  exact settled.found cycle member

/-- A graph in which no cycle is found has none. -/
theorem acc_of_findCycles (contained : Contained size successors)
    (none_found : findCycles size successors = []) {node : Nat} (inside : node < size) :
    Acc (fun next node => next ∈ successors node) node := by
  by_contra endless
  have onward : ∀ node, ¬ Acc (fun next node => next ∈ successors node) node →
      ∃ next ∈ successors node, ¬ Acc (fun next node => next ∈ successors node) next := by
    intro node endless
    by_contra! every
    exact endless (Acc.intro node every)
  obtain ⟨cycle, member, -⟩ := Search.exists_cycle contained onward inside endless
  simp [none_found] at member

/-- No cycle is found exactly in a graph that has none. -/
theorem findCycles_eq_nil
    (contained : Contained size successors) (outside : ∀ node, size ≤ node → successors node = []) :
    findCycles size successors = [] ↔
      ∀ node, Acc (fun next node => next ∈ successors node) node := by
  constructor
  · intro none_found node
    rcases Nat.lt_or_ge node size with inside | beyond
    · exact acc_of_findCycles contained none_found inside
    · exact Acc.intro node fun next edge => by simp [outside node beyond] at edge
  · exact fun ends => Search.cycles_of_acyclic contained fun node => not_transGen_of_acc (ends node)

/-- Where a node lies on a cycle, one is found among the nodes that lead to it and from it. -/
theorem exists_connected_cycle (contained : Contained size successors) {node : Nat}
    (inside : node < size) (loop : LeadsTo successors node node) :
    ∃ cycle ∈ findCycles size successors, ∀ other ∈ cycle,
      LeadsTo successors node other ∧ LeadsTo successors other node := by
  have onward : ∀ other, LeadsTo successors node other ∧ LeadsTo successors other node →
      ∃ next ∈ successors other, LeadsTo successors node next ∧ LeadsTo successors next node := by
    rintro other ⟨there, back⟩
    obtain ⟨next, edge, rest⟩ := Relation.TransGen.head'_iff.mp back
    exact ⟨next, edge, .tail there edge, .trans_right rest loop⟩
  obtain ⟨cycle, member, first, known, there, back⟩ :=
    Search.exists_cycle contained onward inside ⟨loop, loop⟩
  refine ⟨cycle, member, fun other found => ?_⟩
  have circular := (circular_of_mem contained member).1
  exact ⟨there.trans (circular.leadsTo known found), (circular.leadsTo found known).trans back⟩

/-- The search of any graph comes to its end. An edge to an active node closes a cycle at the place
where that node stands on the path. The cycles found are cycles of the graph, and each part of the
graph whose nodes all lead to each other has one found in it; so none is found exactly in a graph
that has none. -/
theorem findCycles_decides (contained : Contained size successors) :
    (Search.complete size successors).isFinished = true ∧
      (∀ more, (Search.start size).run successors (Search.steps size successors + more) =
        Search.complete size successors) ∧
      (∀ count node next others below,
        let search := (Search.start size).run successors count
        search.stack = (node, next :: others) :: below → search.marks next = .active →
          ∃ place, search.path.findIdx? (fun visited => visited == next) = some place ∧
            (search.step successors).cycles = search.cycles ++ [search.path.drop place]) ∧
      (findCycles size successors = [] ↔ ∀ node < size, ¬ LeadsTo successors node node) ∧
      (∀ cycle ∈ findCycles size successors,
        Circular successors cycle ∧ ∀ node ∈ cycle, node < size) ∧
      ∀ node < size, LeadsTo successors node node →
        ∃ cycle ∈ findCycles size successors, ∀ other ∈ cycle,
          LeadsTo successors node other ∧ LeadsTo successors other node := by
  obtain ⟨roots, stack⟩ := Search.finished_complete contained
  have connected (node : Nat) (inside : node < size) := exists_connected_cycle contained inside
  refine ⟨by simp [Search.isFinished, roots, stack], fun more => ?_, ?_, ⟨?_, ?_⟩,
    fun cycle member => circular_of_mem contained member, connected⟩
  · rw [Search.run_add]
    exact Search.run_finished roots stack more
  · intro count node next others below search top active
    have placed : Search.Placed size successors search := Search.placed_run contained count
    obtain ⟨place, found, same, -⟩ :=
      Search.exists_place (Search.mem_path.mpr ((placed.active next).mp active))
    refine ⟨place, found, ?_⟩
    have closes : (search.step successors).cycles = search.cycles ++ [search.closing next] := by
      simp only [Search.step, top, Search.follow, active, ← Search.closing_take top]
    rw [closes, same]
  · intro none_found node inside loop
    obtain ⟨cycle, member, -⟩ := connected node inside loop
    simp [none_found] at member
  · intro acyclic
    refine List.eq_nil_iff_forall_not_mem.mpr fun cycle member => ?_
    obtain ⟨circular, inside⟩ := circular_of_mem contained member
    have first := List.head_mem circular.nonempty
    exact acyclic _ (inside _ first) (circular.leadsTo first first)

theorem findCycles_decides_sample :
    let successors := fun node : Nat => [[1, 1], [0], [2], []].getD node []
    Contained 4 successors ∧ findCycles 4 successors = [[0, 1], [2]] ∧
      LeadsTo successors 1 1 ∧
      ∃ cycle ∈ findCycles 4 successors, ∀ other ∈ cycle,
        LeadsTo successors 1 other ∧ LeadsTo successors other 1 := by
  have contained : Contained 4 fun node => [[1, 1], [0], [2], []].getD node [] := by
    unfold Contained
    decide
  have loop : LeadsTo (fun node => [[1, 1], [0], [2], []].getD node []) 1 1 :=
    .tail (.single (show 0 ∈ [0] by decide)) (show 1 ∈ [1, 1] by decide)
  obtain ⟨-, -, -, -, -, connected⟩ := findCycles_decides contained
  exact ⟨contained, by decide, loop, connected 1 (by decide) loop⟩

end Wiring
