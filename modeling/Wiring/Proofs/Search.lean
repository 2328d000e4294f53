import Mathlib.Algebra.BigOperators.Group.Finset.Basic
import Mathlib.Algebra.GroupWithZero.Nat
import Mathlib.Data.List.Chain
import Mathlib.Logic.Relation
import Wiring.Cycles

/-!
The course of the depth-first search. Its stack is a path of the graph, its marks say which nodes
stand on that path, and it comes to its end in the number of steps that it is given.
-/

namespace Wiring

/-- Each edge of the graph leads to one of its nodes. -/
def Contained (size : Nat) (successors : Nat → List Nat) : Prop :=
  ∀ node < size, ∀ next ∈ successors node, next < size

namespace Search

variable {size : Nat} {successors : Nat → List Nat} {search after : Search}

/-- What one step may do to a search. -/
inductive Moves (successors : Nat → List Nat) (search : Search) : Search → Prop
  | rest (roots : search.roots = []) (stack : search.stack = []) : Moves successors search search
  | skip {root : Nat} {roots : List Nat} (pending : search.roots = root :: roots)
      (stack : search.stack = []) (seen : search.marks root ≠ .unseen) :
      Moves successors search { search with roots := roots }
  | restart {root : Nat} {roots : List Nat} (pending : search.roots = root :: roots)
      (stack : search.stack = []) (unseen : search.marks root = .unseen) :
      Moves successors search ({ search with roots := roots }.enter successors root)
  | leave {node : Nat} {below : List (Nat × List Nat)}
      (top : search.stack = (node, []) :: below) :
      Moves successors search ({ search with stack := below }.mark node .done)
  | descend {node next : Nat} {others : List Nat} {below : List (Nat × List Nat)}
      (top : search.stack = (node, next :: others) :: below)
      (unseen : search.marks next = .unseen) :
      Moves successors search
        ({ search with stack := (node, others) :: below }.enter successors next)
  | close {node next : Nat} {others : List Nat} {below : List (Nat × List Nat)}
      (top : search.stack = (node, next :: others) :: below)
      (active : search.marks next = .active) :
      Moves successors search
        { search with
          stack := (node, others) :: below
          cycles := search.cycles ++ [search.closing next] }
  | pass {node next : Nat} {others : List Nat} {below : List (Nat × List Nat)}
      (top : search.stack = (node, next :: others) :: below)
      (done : search.marks next = .done) :
      Moves successors search { search with stack := (node, others) :: below }

/-- Taking an edge off the last node does not change the path. -/
theorem closing_take {node next : Nat} {others : List Nat} {below : List (Nat × List Nat)}
    (top : search.stack = (node, next :: others) :: below) :
    ({ search with stack := (node, others) :: below } : Search).closing next =
      search.closing next := by
  simp [closing, position, path, top]

theorem step_moves (successors : Nat → List Nat) (search : Search) :
    Moves successors search (search.step successors) := by
  unfold step
  split
  · rename_i stack roots
    exact .rest roots stack
  · rename_i root roots stack pending
    cases seen : search.marks root with
    | unseen => exact .restart pending stack seen
    | active => exact .skip pending stack (by simp [seen])
    | done => exact .skip pending stack (by simp [seen])
  · rename_i node below top
    exact .leave top
  · rename_i node next others below top
    unfold follow
    dsimp only
    cases seen : search.marks next with
    | unseen => exact .descend top seen
    | active =>
      rw [closing_take top]
      exact .close top seen
    | done => exact .pass top seen

/-- A stack holds distinct nodes, each led to from the one below it, and with each node some of
its own edges. -/
structure Trail (size : Nat) (successors : Nat → List Nat) (stack : List (Nat × List Nat)) :
    Prop where
  inside : ∀ frame ∈ stack, frame.1 < size
  edges : ∀ frame ∈ stack, ∀ next ∈ frame.2, next ∈ successors frame.1
  distinct : (stack.map Prod.fst).Nodup
  linked : (stack.map Prod.fst).IsChain fun upper lower => upper ∈ successors lower

theorem trail_nil : Trail size successors [] :=
  ⟨fun _ member => (nomatch member), fun _ member => (nomatch member), .nil, .nil⟩

theorem Trail.leave {frame : Nat × List Nat} {below : List (Nat × List Nat)}
    (trail : Trail size successors (frame :: below)) : Trail size successors below where
  inside other member := trail.inside other (List.mem_cons_of_mem _ member)
  edges other member := trail.edges other (List.mem_cons_of_mem _ member)
  distinct := (List.nodup_cons.mp trail.distinct).2
  linked := trail.linked.tail

theorem Trail.take {node next : Nat} {others : List Nat} {below : List (Nat × List Nat)}
    (trail : Trail size successors ((node, next :: others) :: below)) :
    Trail size successors ((node, others) :: below) where
  inside frame member := by
    rcases List.mem_cons.mp member with rfl | member
    · exact trail.inside (node, next :: others) List.mem_cons_self
    · exact trail.inside frame (List.mem_cons_of_mem _ member)
  edges frame member := by
    rcases List.mem_cons.mp member with rfl | member
    · exact fun other later =>
        trail.edges _ List.mem_cons_self other (List.mem_cons_of_mem _ later)
    · exact trail.edges frame (List.mem_cons_of_mem _ member)
  distinct := trail.distinct
  linked := trail.linked

theorem Trail.enter {stack : List (Nat × List Nat)} (trail : Trail size successors stack)
    {node : Nat} (inside : node < size) (outside : node ∉ stack.map Prod.fst)
    (led : ∀ lower ∈ (stack.map Prod.fst).head?, node ∈ successors lower) :
    Trail size successors ((node, successors node) :: stack) where
  inside frame member := by
    rcases List.mem_cons.mp member with rfl | member
    · exact inside
    · exact trail.inside frame member
  edges frame member := by
    rcases List.mem_cons.mp member with rfl | member
    · exact fun _ edge => edge
    · exact trail.edges frame member
  distinct := List.nodup_cons.mpr ⟨outside, trail.distinct⟩
  linked := List.isChain_cons.mpr ⟨led, trail.linked⟩

/-- The marks of a search say where it stands: the nodes of its path are the active ones, and no
node is forgotten. -/
structure Placed (size : Nat) (successors : Nat → List Nat) (search : Search) : Prop where
  roots : ∀ root ∈ search.roots, root < size
  covered : ∀ node < size, node ∈ search.roots ∨ search.marks node ≠ .unseen
  active : ∀ node, search.marks node = .active ↔ node ∈ search.stack.map Prod.fst
  trail : Trail size successors search.stack

theorem placed_start : Placed size successors (start size) where
  roots root member := List.mem_range.mp member
  covered node inside := .inl (List.mem_range.mpr inside)
  active node := by simp [start]
  trail := trail_nil

/-- The edge that is followed next is one of the last node's. -/
theorem Placed.edge (placed : Placed size successors search) {node next : Nat} {others : List Nat}
    {below : List (Nat × List Nat)} (top : search.stack = (node, next :: others) :: below) :
    node < size ∧ next ∈ successors node := by
  have member : (node, next :: others) ∈ search.stack := by simp [top]
  exact ⟨placed.trail.inside _ member, placed.trail.edges _ member next List.mem_cons_self⟩

theorem Placed.dropRoot (placed : Placed size successors search) {root : Nat} {roots : List Nat}
    (pending : search.roots = root :: roots) (seen : search.marks root ≠ .unseen) :
    Placed size successors { search with roots := roots } :=
  { placed with
    roots := fun other member => placed.roots other (by simp [pending, member])
    covered := fun node within => by
      rcases placed.covered node within with member | seenBefore
      · rw [pending] at member
        rcases List.mem_cons.mp member with rfl | member
        · exact .inr seen
        · exact .inl member
      · exact .inr seenBefore }

theorem Placed.take (placed : Placed size successors search) {node next : Nat}
    {others : List Nat} {below : List (Nat × List Nat)}
    (top : search.stack = (node, next :: others) :: below) :
    Placed size successors { search with stack := (node, others) :: below } :=
  { placed with
    active := fun other => by simpa [top] using placed.active other
    trail := by
      have trail := placed.trail
      rw [top] at trail
      exact trail.take }

theorem Placed.enter (placed : Placed size successors search) {node : Nat} (inside : node < size)
    (unseen : search.marks node = .unseen)
    (led : ∀ lower ∈ (search.stack.map Prod.fst).head?, node ∈ successors lower) :
    Placed size successors (search.enter successors node) where
  roots := placed.roots
  covered other within := by
    rcases placed.covered other within with root | seen
    · exact .inl root
    · right
      simp only [Search.enter, Search.mark]
      split <;> simp_all
  active other := by
    simp only [Search.enter, Search.mark, List.map_cons, List.mem_cons]
    by_cases same : other = node
    · simp [same]
    · simp [same, placed.active]
  trail := by
    have outside : node ∉ search.stack.map Prod.fst := by
      rw [← placed.active, unseen]
      simp
    exact placed.trail.enter inside outside led

theorem Placed.leave (placed : Placed size successors search) {node : Nat}
    {below : List (Nat × List Nat)} (top : search.stack = (node, []) :: below) :
    Placed size successors ({ search with stack := below }.mark node .done) := by
  have trail := placed.trail
  rw [top] at trail
  refine ⟨placed.roots, fun other within => ?_, fun other => ?_, trail.leave⟩
  · rcases placed.covered other within with root | seen
    · exact .inl root
    · right
      simp only [Search.mark]
      split <;> simp_all
  · have outside : node ∉ below.map Prod.fst := (List.nodup_cons.mp trail.distinct).1
    by_cases same : other = node
    · subst same
      simpa [Search.mark] using outside
    · have active := placed.active other
      rw [top] at active
      simpa [Search.mark, same] using active

theorem Placed.moves (placed : Placed size successors search)
    (contained : Contained size successors) (moves : Moves successors search after) :
    Placed size successors after := by
  cases moves with
  | rest => exact placed
  | skip pending stack seen => exact placed.dropRoot pending seen
  | restart pending stack unseen =>
    rename_i root roots
    have entered : Placed size successors (search.enter successors root) :=
      placed.enter (placed.roots root (by simp [pending])) unseen (by simp [stack])
    exact entered.dropRoot pending (by simp [Search.enter, Search.mark])
  | leave top => exact placed.leave top
  | descend top unseen =>
    obtain ⟨inside, edge⟩ := placed.edge top
    exact (placed.take top).enter (contained _ inside _ edge) unseen (by simpa using edge)
  | close top active =>
    have taken := placed.take top
    exact ⟨taken.roots, taken.covered, taken.active, taken.trail⟩
  | pass top done => exact placed.take top

theorem placed_run (contained : Contained size successors) (count : Nat) :
    Placed size successors ((start size).run successors count) := by
  have onward : ∀ count search, Placed size successors search →
      Placed size successors (search.run successors count) := by
    intro count
    induction count with
    | zero => exact fun _ placed => placed
    | succ count ih =>
      exact fun search placed => ih _ (placed.moves contained (step_moves successors search))
  exact onward count _ placed_start

/-- The steps that a search still has to take: one for each root, one for each edge that is still
to be followed, and one to leave each node. -/
def work (size : Nat) (successors : Nat → List Nat) (search : Search) : Nat :=
  search.roots.length + (search.stack.map fun frame => frame.2.length + 1).sum +
    ∑ node ∈ Finset.range size,
      if search.marks node = .unseen then (successors node).length + 1 else 0

theorem work_enter (search : Search) {node : Nat} (inside : node < size)
    (unseen : search.marks node = .unseen) :
    (search.enter successors node).work size successors = search.work size successors := by
  have member : node ∈ Finset.range size := Finset.mem_range.mpr inside
  have others : ∑ other ∈ (Finset.range size).erase node,
      (if (search.enter successors node).marks other = .unseen then (successors other).length + 1
        else 0) =
      ∑ other ∈ (Finset.range size).erase node,
        if search.marks other = .unseen then (successors other).length + 1 else 0 := by
    apply Finset.sum_congr rfl
    intro other elsewhere
    simp [Search.enter, Search.mark, Finset.ne_of_mem_erase elsewhere]
  unfold work
  rw [← Finset.add_sum_erase _ _ member, ← Finset.add_sum_erase _ _ member, others]
  simp [Search.enter, Search.mark, unseen]
  omega

theorem work_mark_seen (search : Search) {node : Nat} (seen : search.marks node ≠ .unseen) :
    (search.mark node .done).work size successors = search.work size successors := by
  have same : ∀ other, ((search.mark node .done).marks other = .unseen) =
      (search.marks other = .unseen) := by
    intro other
    by_cases here : other = node
    · simp [Search.mark, here, seen]
    · simp [Search.mark, here]
  unfold work
  simp only [same]
  rfl

/-- A search without roots and without a path has seen every node. -/
theorem Placed.work_finished (placed : Placed size successors search)
    (roots : search.roots = []) (stack : search.stack = []) :
    search.work size successors = 0 := by
  have seen : ∀ node ∈ Finset.range size,
      (if search.marks node = .unseen then (successors node).length + 1 else 0) = 0 := by
    intro node member
    have covered := placed.covered node (Finset.mem_range.mp member)
    rw [roots] at covered
    simp_all
  unfold work
  rw [Finset.sum_eq_zero seen, roots, stack]
  rfl

theorem work_take {node next : Nat} {others : List Nat} {below : List (Nat × List Nat)}
    (top : search.stack = (node, next :: others) :: below) :
    ({ search with stack := (node, others) :: below } : Search).work size successors =
      search.work size successors - 1 := by
  simp only [work, top, List.map_cons, List.sum_cons, List.length_cons]
  omega

theorem work_dropRoot {root : Nat} {roots : List Nat} (pending : search.roots = root :: roots) :
    ({ search with roots := roots } : Search).work size successors =
      search.work size successors - 1 := by
  simp only [work, pending, List.length_cons]
  omega

/-- Each step of a search that has work takes one off it. -/
theorem Placed.work_moves (placed : Placed size successors search)
    (contained : Contained size successors) (moves : Moves successors search after) :
    after.work size successors = search.work size successors - 1 := by
  cases moves with
  | rest roots stack => rw [placed.work_finished roots stack]
  | skip pending stack seen => exact work_dropRoot pending
  | restart pending stack unseen =>
    rename_i root roots
    rw [work_enter { search with roots := roots } (placed.roots root (by simp [pending])) unseen]
    exact work_dropRoot pending
  | leave top =>
    rename_i node below
    have seen : search.marks node = .active := (placed.active node).mpr (by simp [top])
    rw [work_mark_seen { search with stack := below } (by simp [seen])]
    simp only [work, top, List.map_cons, List.sum_cons, List.length_nil]
    omega
  | descend top unseen =>
    rename_i node next others below
    obtain ⟨inside, edge⟩ := placed.edge top
    rw [work_enter { search with stack := (node, others) :: below }
      (contained node inside next edge) unseen]
    exact work_take top
  | close top active => exact work_take top
  | pass top done => exact work_take top

/-- As many steps as there is work bring a search to its end. -/
theorem Placed.run_finished (placed : Placed size successors search)
    (contained : Contained size successors) (count : Nat)
    (enough : search.work size successors ≤ count) :
    (search.run successors count).roots = [] ∧ (search.run successors count).stack = [] := by
  induction count generalizing search with
  | zero =>
    have nothing : search.work size successors = 0 := Nat.le_zero.mp enough
    unfold work at nothing
    constructor
    · exact List.length_eq_zero_iff.mp (show search.roots.length = 0 by omega)
    · change search.stack = []
      cases found : search.stack with
      | nil => rfl
      | cons frame below =>
        rw [found, List.map_cons, List.sum_cons] at nothing
        omega
  | succ count ih =>
    have moves := step_moves successors search
    have less := placed.work_moves contained moves
    exact ih (placed.moves contained moves) (by omega)

theorem steps_eq (size : Nat) (successors : Nat → List Nat) :
    steps size successors = (start size).work size successors := by
  have sum : steps size successors =
      size + ∑ node ∈ Finset.range size, ((successors node).length + 1) := by
    induction size with
    | zero => rfl
    | succ size ih =>
      rw [steps, List.range_succ, List.foldl_append, ← steps, ih, Finset.sum_range_succ]
      simp only [List.foldl_cons, List.foldl_nil]
      omega
  rw [sum]
  simp [work, start]

/-- The number of steps that the search is given suffices. -/
theorem finished_complete (contained : Contained size successors) :
    (complete size successors).roots = [] ∧ (complete size successors).stack = [] :=
  placed_start.run_finished contained _ (by rw [steps_eq])

theorem run_finished (roots : search.roots = []) (stack : search.stack = []) (count : Nat) :
    search.run successors count = search := by
  have still : search.step successors = search := by
    unfold step
    rw [roots, stack]
  induction count with
  | zero => rfl
  | succ count ih => rw [run, still, ih]

theorem run_add (search : Search) (first second : Nat) :
    search.run successors (first + second) =
      (search.run successors first).run successors second := by
  induction first generalizing search with
  | zero => rw [Nat.zero_add, run]
  | succ first ih => rw [Nat.succ_add, run, run, ih]

end Search

end Wiring
