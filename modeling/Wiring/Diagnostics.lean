import Wiring.Entry
import Wiring.Event

/-!
Diagnostics: every problem that resolving an assembly found. Nothing stops at the first problem;
each is recorded with the entries or exports that take part in it.
-/

namespace Wiring

/-- What a message says about an entry. -/
structure EntryDescriptor where
  id : EntryId
  key : Key
  origin : OriginKind
  scope : String
  source : Option String
  description : Option String
deriving DecidableEq

namespace EntryDescriptor

/-- The descriptor of an entry in a scope of the given name. -/
def of (id : EntryId) (entry : Entry) (scope : String) : EntryDescriptor where
  id := id
  key := entry.key
  origin := entry.origin.kind
  scope := scope
  source := entry.source
  description := entry.description

/-- A descriptor as messages print it. -/
def shown (entry : EntryDescriptor) : String :=
  entry.origin.name ++ " " ++ entry.id.shown ++ " (" ++ entry.key.shown ++ ") in `" ++
    entry.scope ++ "`" ++
    (match entry.source with
      | none => ""
      | some source => " declared by `" ++ source ++ "`") ++
    (match entry.description with
      | none => ""
      | some description => ": " ++ description)

end EntryDescriptor

/-- What a message says about an export. An export that found nothing has no target. -/
structure ExportDescriptor where
  key : Key
  exportAs : Key
  scope : String
  target : Option EntryId
deriving DecidableEq

/-- A descriptor as messages print it. -/
def ExportDescriptor.shown (descriptor : ExportDescriptor) : String :=
  "export of " ++ descriptor.key.shown ++
    (if descriptor.key = descriptor.exportAs then "" else " as " ++ descriptor.exportAs.shown) ++
    " from `" ++ descriptor.scope ++ "`" ++
    (match descriptor.target with
      | none => ""
      | some target => " (entry " ++ target.shown ++ ")")

/-- A dependency without a provider, and the entry that needs it. -/
structure UnresolvedRequirement where
  key : Key
  requiredBy : EntryDescriptor
deriving DecidableEq

/-- Lists of things by key; the keys stay in the order in which they first came up. -/
abbrev Grouped (α : Type) := List (Key × List α)

namespace Grouped

variable {α : Type}

/-- What is recorded under a key. -/
def get (groups : Grouped α) (key : Key) : List α :=
  ((groups.find? fun group => group.1 == key).map Prod.snd).getD []

/-- What is recorded under a key changes; a new key comes last. -/
def update (change : List α → List α) (key : Key) : Grouped α → Grouped α
  | [] => [(key, change [])]
  | group :: groups =>
    if group.1 = key then (group.1, change group.2) :: groups
    else group :: update change key groups

end Grouped

/-- The item joins the list unless it is known already. -/
def joinNew {α : Type} (known : α → α → Bool) (items : List α) (item : α) : List α :=
  if items.any fun old => known old item then items else items ++ [item]

/-- The position of the least text, the first one if there are several. -/
def leastPosition : List String → Nat
  | [] => 0
  | [_] => 0
  | first :: second :: rest =>
    let position := leastPosition (second :: rest)
    match (second :: rest)[position]? with
    | none => 0
    | some least => if least < first then position + 1 else 0

/-- A cycle from its least member on. -/
def rotateToLeast {α : Type} (text : α → String) (cycle : List α) : List α :=
  cycle.rotateLeft (leastPosition (cycle.map text))

/-- The problems that were found, each kind in the order of discovery. -/
structure Diagnostics where
  duplicateProviders : Grouped EntryDescriptor
  unresolvedRequirements : List UnresolvedRequirement
  duplicateExports : Grouped ExportDescriptor
  unresolvedExports : Grouped ExportDescriptor
  dependencyCycles : List (List Key)
  importCycles : List (List String)
deriving DecidableEq

namespace Diagnostics

/-- No problem. -/
def empty : Diagnostics where
  duplicateProviders := []
  unresolvedRequirements := []
  duplicateExports := []
  unresolvedExports := []
  dependencyCycles := []
  importCycles := []

/-- Two entries compete for a key. Each entry is recorded once under the key. -/
def recordDuplicateProvider (diagnostics : Diagnostics) (key : Key)
    (existing rejected : EntryDescriptor) : Diagnostics :=
  { diagnostics with
    duplicateProviders := Grouped.update
      (fun entries =>
        [existing, rejected].foldl (joinNew fun old new => old.id == new.id) entries)
      key diagnostics.duplicateProviders }

/-- A dependency has no provider. -/
def recordUnresolvedRequirement (diagnostics : Diagnostics) (key : Key)
    (requiredBy : EntryDescriptor) : Diagnostics :=
  { diagnostics with
    unresolvedRequirements := diagnostics.unresolvedRequirements ++ [⟨key, requiredBy⟩] }

/-- Two exports compete for a key. Each export is recorded once under the key. -/
def recordDuplicateExport (diagnostics : Diagnostics) (key : Key)
    (existing rejected : ExportDescriptor) : Diagnostics :=
  { diagnostics with
    duplicateExports := Grouped.update
      (fun exports => [existing, rejected].foldl (joinNew fun old new => old == new) exports)
      key diagnostics.duplicateExports }

/-- An export names a key that its scope does not hold. -/
def recordUnresolvedExport (diagnostics : Diagnostics) (descriptor : ExportDescriptor) :
    Diagnostics :=
  { diagnostics with
    unresolvedExports := Grouped.update (fun exports => exports ++ [descriptor])
      descriptor.key diagnostics.unresolvedExports }

/-- Entries depend on each other in a circle. The circle is recorded from its least key on, once. -/
def recordDependencyCycle (diagnostics : Diagnostics) (cycle : List Key) : Diagnostics :=
  { diagnostics with
    dependencyCycles := joinNew (fun old new => old == new) diagnostics.dependencyCycles
      (rotateToLeast Key.shown cycle) }

/-- Scopes import from each other in a circle. The circle is recorded from its least name on,
once. -/
def recordImportCycle (diagnostics : Diagnostics) (cycle : List String) : Diagnostics :=
  { diagnostics with
    importCycles := joinNew (fun old new => old == new) diagnostics.importCycles
      (rotateToLeast id cycle) }

/-- The keys without a provider, each once, in the order of discovery. -/
def unresolvedKeys (diagnostics : Diagnostics) : List Key :=
  (diagnostics.unresolvedRequirements.map UnresolvedRequirement.key).foldl
    (joinNew fun old new => old == new) []

/-- The number of problems. A key with several providers or exports counts once. -/
def length (diagnostics : Diagnostics) : Nat :=
  diagnostics.duplicateProviders.length + diagnostics.unresolvedRequirements.length +
    diagnostics.duplicateExports.length +
    (diagnostics.unresolvedExports.flatMap Prod.snd).length +
    diagnostics.dependencyCycles.length + diagnostics.importCycles.length

/-- There is no problem. -/
def isEmpty (diagnostics : Diagnostics) : Bool := diagnostics.length == 0

/-- The number of problems of each kind; unresolved exports count by key. -/
def counts (diagnostics : Diagnostics) : ProblemCounts where
  problems := diagnostics.length
  duplicateProviders := diagnostics.duplicateProviders.length
  unresolvedRequirements := diagnostics.unresolvedRequirements.length
  duplicateExports := diagnostics.duplicateExports.length
  unresolvedExports := diagnostics.unresolvedExports.length
  dependencyCycles := diagnostics.dependencyCycles.length
  importCycles := diagnostics.importCycles.length

/-- The lines of a section, under its title; a section without lines has no title either. -/
def lines (title : String) (items : List String) : List String :=
  if items.isEmpty then [] else title :: items

/-- The members of a cycle, and its first member again. -/
def cycleLine (cycle : List String) : String :=
  "  " ++ String.intercalate " -> " cycle ++ " -> " ++ cycle.head?.getD ""

/-- The lines of the report. -/
def reportLines (diagnostics : Diagnostics) : List String :=
  lines "duplicate providers:"
      (diagnostics.duplicateProviders.flatMap fun group =>
        ("  " ++ group.1.shown ++ " is provided by " ++ toString group.2.length ++ " entries:") ::
          group.2.map fun entry => "    - " ++ entry.shown) ++
    lines "unresolved requirements:"
      (diagnostics.unresolvedRequirements.map fun requirement =>
        "  " ++ requirement.key.shown ++ " required by " ++ requirement.requiredBy.shown) ++
    lines "duplicate exports:"
      (diagnostics.duplicateExports.flatMap fun group =>
        ("  " ++ group.1.shown ++ " is exported " ++ toString group.2.length ++ " times:") ::
          group.2.map fun descriptor => "    - " ++ descriptor.shown) ++
    lines "unresolved exports:"
      (diagnostics.unresolvedExports.flatMap fun group =>
        group.2.map fun descriptor => "  " ++ descriptor.shown ++ ": no such key in scope") ++
    lines "dependency cycles:"
      (diagnostics.dependencyCycles.map fun cycle => cycleLine (cycle.map Key.shown)) ++
    lines "import cycles:" (diagnostics.importCycles.map cycleLine)

/-- The report of all problems, each line with its end. -/
def report (diagnostics : Diagnostics) : String :=
  if diagnostics.isEmpty then "no problems"
  else String.join (diagnostics.reportLines.map fun line => line ++ "\n")

end Diagnostics

/-- Why an assembly could not be built. -/
inductive BuildError where
  /-- The declarations do not fit together. -/
  | invalid (diagnostics : Diagnostics)
  /-- The factory of a constant failed. -/
  | instantiation (key : Key) (source : ConstructionError)
deriving DecidableEq

/-- The message of a build error. -/
def BuildError.message : BuildError → String
  | .invalid diagnostics =>
    "service configuration is invalid (" ++ toString diagnostics.length ++ " problem(s)):\n" ++
      diagnostics.report
  | .instantiation key source =>
    "failed to instantiate constant " ++ key.shown ++ ": " ++ source.message

end Wiring
