import Wiring.Misuse
import Wiring.Pool

/-!
What passes the boundary of a scope. An import brings in the entries of another scope, or of a
pool that was built before, and sends each key through a list of operations. An export makes an
entry visible in the parent scope, under its own key or another one of the same type.
-/

namespace Wiring

/-- Where imported entries come from. -/
inductive ImportSource where
  | scope (scope : ScopeId)
  | pool (pool : Pool)

/-- A source as it is shown. -/
def ImportSource.described : ImportSource → String
  | .scope id => "Scope(ScopeId(" ++ toString id.index ++ "))"
  | .pool built => "Pool(" ++ Text.quoted built.name ++ ")"

/-- One step on the way of an imported key. -/
inductive ImportOp where
  /-- The key is dropped. -/
  | exclude (key : Key)
  /-- Every other key is dropped. -/
  | retain (keys : List Key)
  /-- Every key that is not accepted is dropped. -/
  | filter (accepts : Key → Bool)
  /-- The key is renamed. -/
  | rebind (source target : Key)

namespace ImportOp

/-- The key after the step, unless the step drops it. -/
def apply (op : ImportOp) (key : Key) : Option Key :=
  match op with
  | .exclude excluded => if key = excluded then none else some key
  | .retain keys => if key ∈ keys then some key else none
  | .filter accepts => if accepts key then some key else none
  | .rebind source target => if key = source then some target else some key

/-- A step is refused when it renames a key to one of another type. -/
def check (op : ImportOp) : Except Misuse Unit :=
  match op with
  | .rebind source target =>
    if source.sameType target then .ok () else .error (.rebindAcrossTypes source target)
  | .exclude _ => .ok ()
  | .retain _ => .ok ()
  | .filter _ => .ok ()

/-- A step as it is shown. -/
def described : ImportOp → String
  | .exclude key => "Exclude(" ++ key.described ++ ")"
  | .retain keys => "Retain([" ++ String.intercalate ", " (keys.map Key.described) ++ "])"
  | .filter _ => "Filter(..)"
  | .rebind source target =>
    "Rebind \x7b from: " ++ source.described ++ ", to: " ++ target.described ++ " \x7d"

end ImportOp

/-- A source and the steps for its keys. -/
structure ImportSpec where
  source : ImportSource
  ops : List ImportOp

namespace ImportSpec

/-- The key after the given steps, unless one of them drops it. -/
def applyAll : List ImportOp → Key → Option Key
  | [], key => some key
  | op :: ops, key => (op.apply key).bind (applyAll ops)

/-- The key under which an entry of the source becomes visible, unless it is dropped. -/
def apply (spec : ImportSpec) (key : Key) : Option Key := applyAll spec.ops key

/-- The first step that is refused, if there is one. -/
def checkAll : List ImportOp → Except Misuse Unit
  | [] => .ok ()
  | op :: ops =>
    match op.check with
    | .ok () => checkAll ops
    | .error misuse => .error misuse

/-- An import whose steps are all in order. -/
def make (source : ImportSource) (ops : List ImportOp) : Except Misuse ImportSpec :=
  (checkAll ops).map fun _ => ⟨source, ops⟩

/-- An import as it is shown. -/
def described (spec : ImportSpec) : String :=
  "ImportSpec \x7b source: " ++ spec.source.described ++ ", ops: [" ++
    String.intercalate ", " (spec.ops.map ImportOp.described) ++ "] \x7d"

end ImportSpec

/-- What a scope shows to its parent. -/
inductive ExportSpec where
  /-- The entry under a key, under a key of the parent. -/
  | keyed (key exportAs : Key)
  /-- Every entry under its own key. -/
  | all
deriving DecidableEq

namespace ExportSpec

/-- An export under the same key. -/
def same (key : Key) : ExportSpec := .keyed key key

/-- An export under another key, which must be of the same type. -/
def rebound (key exportAs : Key) : Except Misuse ExportSpec :=
  if key.sameType exportAs then .ok (.keyed key exportAs)
  else .error (.exportAcrossTypes key exportAs)

/-- An export as it is shown. -/
def described : ExportSpec → String
  | .keyed key exportAs =>
    "Key \x7b key: " ++ key.described ++ ", export_as: " ++ exportAs.described ++ " \x7d"
  | .all => "All"

end ExportSpec

end Wiring
