/-!
Cycles of a directed graph whose nodes are numbers and whose edges are lists of successors. A
depth-first search marks each node when it comes to it and again when it has followed all its
edges; an edge that leads to a node between the two marks closes a cycle, and every such edge
gives one.
-/

namespace Wiring

/-- How far a search has come with a node. -/
inductive Mark where
  | unseen
  | active
  | done
deriving DecidableEq, Repr

/-- A depth-first search on its way. The stack holds the path, the last node first, each node with
the successors that are not yet followed. -/
structure Search where
  roots : List Nat
  stack : List (Nat × List Nat)
  marks : Nat → Mark
  cycles : List (List Nat)

namespace Search

/-- The search before its first step. -/
def start (size : Nat) : Search where
  roots := List.range size
  stack := []
  marks := fun _ => .unseen
  cycles := []

/-- The search has followed every edge. -/
def isFinished (search : Search) : Bool := search.roots.isEmpty && search.stack.isEmpty

/-- The nodes of the path, from its first node on. -/
def path (search : Search) : List Nat := (search.stack.map Prod.fst).reverse

/-- The position of a node on the path, and the start of the path for a node that is not on it. -/
def position (search : Search) (node : Nat) : Nat :=
  (search.path.findIdx? fun visited => visited == node).getD 0

/-- The part of the path from a node on. -/
def closing (search : Search) (node : Nat) : List Nat := search.path.drop (search.position node)

/-- The search with another mark on a node. -/
def mark (search : Search) (node : Nat) (mark : Mark) : Search :=
  { search with marks := fun other => if other = node then mark else search.marks other }

/-- The search comes to a node. -/
def enter (successors : Nat → List Nat) (search : Search) (node : Nat) : Search :=
  { search with stack := (node, successors node) :: search.stack }.mark node .active

/-- An edge of the path's last node is followed. -/
def follow (successors : Nat → List Nat) (search : Search) (next : Nat) : Search :=
  match search.marks next with
  | .unseen => search.enter successors next
  | .active => { search with cycles := search.cycles ++ [search.closing next] }
  | .done => search

/-- One step: the next edge of the last node is followed, or the node is left, or the search
starts again from the next root. -/
def step (successors : Nat → List Nat) (search : Search) : Search :=
  match search.stack, search.roots with
  | [], [] => search
  | [], root :: roots =>
    match search.marks root with
    | .unseen => { search with roots := roots }.enter successors root
    | .active => { search with roots := roots }
    | .done => { search with roots := roots }
  | (node, []) :: rest, _ => { search with stack := rest }.mark node .done
  | (node, next :: others) :: rest, _ =>
    { search with stack := (node, others) :: rest }.follow successors next

/-- The given number of steps. -/
def run (successors : Nat → List Nat) : Nat → Search → Search
  | 0, search => search
  | steps + 1, search => run successors steps (search.step successors)

/-- The number of steps of a whole search: one for each root, and for each node one for every
edge and one to leave it. -/
def steps (size : Nat) (successors : Nat → List Nat) : Nat :=
  (List.range size).foldl (fun total node => total + ((successors node).length + 2)) 0

/-- The whole search of a graph. -/
def complete (size : Nat) (successors : Nat → List Nat) : Search :=
  (start size).run successors (steps size successors)

end Search

/-- The cycles that the search finds, each as the nodes along it. -/
def findCycles (size : Nat) (successors : Nat → List Nat) : List (List Nat) :=
  (Search.complete size successors).cycles

example : findCycles 5 (fun node => [[1], [2], [0], [3], [0]].getD node []) = [[0, 1, 2], [3]] := by
  decide

example : findCycles 3 (fun node => [[1, 2], [2], []].getD node []) = [] := by decide

end Wiring
