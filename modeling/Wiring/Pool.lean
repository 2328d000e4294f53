import Wiring.Accessor

/-!
Pools: the compiled entries of a scope on top of those of its ancestors. A lookup takes the nearest
layer that holds the key, and the listing of a pool shows the same entries in the same way.
-/

namespace Wiring

/-- The compiled entries of one scope, in the order in which they were registered. -/
structure Layer where
  name : String
  entries : List (Key × RuntimeEntry)

namespace Layer

/-- The entry that is registered under a key. -/
def find? (layer : Layer) (key : Key) : Option RuntimeEntry :=
  (layer.entries.find? fun pair => pair.1 == key).map Prod.snd

/-- The registered entries. -/
def listed (layer : Layer) : List RuntimeEntry := layer.entries.map Prod.snd

end Layer

/-- A visible service as a listing shows it: the layer is the one that holds its entry. -/
structure ServiceDescriptor where
  key : Key
  description : Option String
  mode : InstantiationMode
  scope : String
deriving DecidableEq

/-- The layer of a scope and the layers of its ancestors, the nearest first. -/
structure Pool where
  layer : Layer
  ancestors : List Layer

namespace Pool

/-- The layers of the pool, the nearest first. -/
def layers (pool : Pool) : List Layer := pool.layer :: pool.ancestors

/-- The name of the scope. -/
def name (pool : Pool) : String := pool.layer.name

/-- The name of the parent scope. -/
def parentName (pool : Pool) : Option String := pool.ancestors.head?.map Layer.name

/-- The entries of the scope itself. -/
def localEntries (pool : Pool) : List RuntimeEntry := pool.layer.listed

/-- The entry that is visible under a key. -/
def find? (pool : Pool) (key : Key) : Option RuntimeEntry :=
  pool.layers.findSome? fun layer => layer.find? key

/-- An entry is visible under the key. -/
def contains (pool : Pool) (key : Key) : Bool := (pool.find? key).isSome

/-- The pairs whose entry has a key that no earlier pair has. -/
def nearest : List (Layer × RuntimeEntry) → List Key → List (Layer × RuntimeEntry)
  | [], _ => []
  | pair :: rest, seen =>
    if seen.contains pair.2.key then nearest rest seen
    else pair :: nearest rest (pair.2.key :: seen)

/-- The visible entries, each with the layer that holds it, those of nearer layers first. -/
def walk (pool : Pool) : List (Layer × RuntimeEntry) :=
  nearest (pool.layers.flatMap fun layer => layer.listed.map fun entry => (layer, entry)) []

/-- The visible entries. -/
def visibleEntries (pool : Pool) : List RuntimeEntry := pool.walk.map Prod.snd

/-- The visible services. -/
def services (pool : Pool) : List ServiceDescriptor :=
  pool.walk.map fun pair =>
    { key := pair.2.key
      description := pair.2.description
      mode := pair.2.mode
      scope := pair.1.name }

/-- How a pool is shown: by its size, without its entries. -/
def described (pool : Pool) : String :=
  "ServicePool \x7b name: " ++ Text.quoted pool.name ++ ", entries: " ++
    toString pool.layer.entries.length ++ ", parent: " ++ Text.quotedOption pool.parentName ++
    " \x7d"

end Pool

/-- Why the bundles of an application have not all finished. -/
inductive Halt where
  | finishing
  | panicked (message : String)
  /-- No end within the bound on nested lookups. -/
  | exhausted

/-- A compiled assembly: one pool for each scope, and the pool of the public exports. It is built
when all its bundles have finished. -/
structure Application where
  pools : List Pool
  exports : Pool
  halt : Option Halt

/-- A pool of an application by its position. -/
inductive PoolPosition where
  | scope (index : Nat)
  | exports
deriving DecidableEq

namespace Application

/-- The pool at a position. -/
def poolAt? (application : Application) : PoolPosition → Option Pool
  | .scope index => application.pools[index]?
  | .exports => some application.exports

/-- The position of a pool that is given by name. A path names the first scope that has it. -/
def position? (application : Application) : PoolName → Option PoolPosition
  | .root => some (.scope 0)
  | .scope index => if index < application.pools.length then some (.scope index) else none
  | .path name => (application.pools.findIdx? fun pool => pool.name == name).map .scope
  | .exports => some .exports

/-- The pool with the given name. -/
def pool? (application : Application) (name : PoolName) : Option Pool :=
  (application.position? name).bind application.poolAt?

/-- The name of the root scope. -/
def name (application : Application) : String :=
  ((application.poolAt? (.scope 0)).map Pool.name).getD ""

/-- The applications while the bundles of one more finish. -/
def joining (application : Application) (applications : List Application) : List Application :=
  applications ++ [{ application with halt := some .finishing }]

/-- How an application is shown: by its pools. -/
def described (application : Application) : String :=
  "Application \x7b pools: [" ++ String.intercalate ", " (application.pools.map Pool.described) ++
    "], exports: " ++ application.exports.described ++ " \x7d"

end Application

/-- The application that a path leads into. Only those who hold a pool of it come to one whose
bundles have not finished. -/
def PoolPath.application? (path : PoolPath) (applications : List Application) :
    Option Application :=
  (applications.filter fun application => path.held || application.halt.isNone)[path.application]?

/-- The pool at a path. -/
def PoolPath.resolve? (path : PoolPath) (applications : List Application) : Option Pool :=
  (path.application? applications).bind fun application => application.pool? path.pool

end Wiring
