import Wiring.Assembly
import Wiring.Cycles

/-!
The order in which scopes receive their entries: a scope comes after every scope from which it
imports. Scopes that import from each other in a circle, and those that import from them, come
last, in the order of their creation.
-/

namespace Wiring

/-- The scope from which an import takes, if it does not take from a built pool. -/
def Import.scopeSource? (imported : Import) : Option Nat :=
  match imported.spec.source with
  | .scope id => some id.index
  | .pool _ => none

/-- The scopes from which a scope imports, once for each import. -/
def Scope.scopeSources (scope : Scope) : List Nat := scope.imports.filterMap Import.scopeSource?

/-- The scopes from which the scope at a position imports. -/
def sourcesAt (scopes : List Scope) (index : Nat) : List Nat :=
  (scopes[index]?.map Scope.scopeSources).getD []

/-- An ordering on its way: the scopes that are ready, how many imports of each scope still wait
for their source, and the scopes ordered so far. -/
structure ImportOrdering where
  ready : List Nat
  waiting : List Nat
  ordered : List Nat

namespace ImportOrdering

/-- At first those scopes are ready that import from no other. -/
def start (scopes : List Scope) : ImportOrdering where
  ready := (List.range scopes.length).filter fun index => (sourcesAt scopes index).isEmpty
  waiting := scopes.map fun scope => scope.scopeSources.length
  ordered := []

/-- The importers of a scope, in the order of their creation, once for each import. -/
def importers (scopes : List Scope) (source : Nat) : List Nat :=
  (List.range scopes.length).flatMap fun index =>
    List.replicate ((sourcesAt scopes index).count source) index

/-- One import of a scope has its source. With the last one the scope is ready. -/
def release (ordering : ImportOrdering) (importer : Nat) : ImportOrdering :=
  let left := ordering.waiting.getD importer 0
  { ordering with
    waiting := ordering.waiting.set importer (left - 1)
    ready := if left = 1 then ordering.ready ++ [importer] else ordering.ready }

/-- The scope that has been ready longest is ordered next. -/
def next (scopes : List Scope) (ordering : ImportOrdering) : ImportOrdering :=
  match ordering.ready with
  | [] => ordering
  | index :: ready =>
    (importers scopes index).foldl release
      { ordering with ready := ready, ordered := ordering.ordered ++ [index] }

/-- The given number of scopes is ordered, or as many as become ready. -/
def run (scopes : List Scope) : Nat → ImportOrdering → ImportOrdering
  | 0, ordering => ordering
  | rounds + 1, ordering => run scopes rounds (ordering.next scopes)

/-- The ordering of all scopes that become ready. -/
def complete (scopes : List Scope) : ImportOrdering := run scopes scopes.length (start scopes)

/-- A scope waits in vain: not all its sources come before it. -/
def isStuck (ordering : ImportOrdering) (index : Nat) : Bool := ordering.waiting.getD index 0 != 0

/-- The scopes that wait in vain, in the order of their creation. -/
def stuck (ordering : ImportOrdering) : List Nat :=
  (List.range ordering.waiting.length).filter ordering.isStuck

/-- The scopes that a scope that waits in vain is waiting for. -/
def blocking (ordering : ImportOrdering) (scopes : List Scope) (index : Nat) : List Nat :=
  if ordering.isStuck index then (sourcesAt scopes index).filter ordering.isStuck else []

end ImportOrdering

/-- The order in which the scopes receive their entries. -/
def importOrder (scopes : List Scope) : List ScopeId :=
  let ordering := ImportOrdering.complete scopes
  (ordering.ordered ++ ordering.stuck).map ScopeId.mk

/-- The circles of imports, each as the names of the scopes along it. -/
def importCycles (scopes : List Scope) : List (List String) :=
  let ordering := ImportOrdering.complete scopes
  (findCycles scopes.length (ordering.blocking scopes)).map fun cycle =>
    cycle.map fun index => (scopes[index]?.map Scope.name).getD ""

end Wiring
