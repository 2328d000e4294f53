import Wiring.Building
import Wiring.Declaration

/-!
A host: it declares one assembly at a time, builds it, and answers questions about the
applications that it has built. An assembly may import pools of applications that the host built
before it, and all of them share one memory.
-/

namespace Wiring

/-- The assembly that is being declared, the applications so far, and their memory. -/
structure Host where
  begun : Nat
  assembly : Option Assembly
  applications : List Application
  memory : Memory

/-- How a build ends. -/
inductive Built where
  | application (index : Nat) (application : Application)
  | failed (error : BuildError)
  | panicked (message : String)
  /-- No end within the bound on nested lookups. -/
  | exhausted

/-- How a build ends that came to an application. -/
def Built.of (index : Nat) (application : Application) : Built :=
  match application.halt with
  | none => .application index application
  | some (.panicked message) => .panicked message
  | some .finishing | some .exhausted => .exhausted

namespace Host

/-- A host that has done nothing yet. -/
def new : Host where
  begun := 0
  assembly := none
  applications := []
  memory := .empty

/-- A host that has done nothing yet and lets factories ask each other more deeply. -/
def patient (patience : Nat) : Host :=
  { new with memory := { Memory.empty with patience := patience } }

/-- A new assembly takes the place of the one that was being declared. -/
def start (host : Host) (config : Config) : Host :=
  { host with begun := host.begun + 1, assembly := some (.new host.begun config) }

/-- The entries of the assembly that is being declared. -/
def entries (host : Host) : List Entry := (host.assembly.map Assembly.entries).getD []

/-- A change of the assembly, when there is one. What was done before a refusal stays. -/
def declare {α : Type} (host : Host) (declaring : Declaring α) : Option (Except Misuse α) × Host :=
  match host.assembly with
  | none => (none, host)
  | some assembly =>
    match declaring (assembly, []) with
    | (ending, (assembly, events)) =>
      let answer :=
        match ending with
        | .value value => some (.ok value)
        | .error misuse => some (.error misuse)
        | .panic message => some (.error (.raised message))
        | .exhausted => none
      (answer,
        { host with
          assembly := some assembly
          memory := events.foldl Memory.report host.memory })

/-- The applications that were built. -/
def built (host : Host) : List Application :=
  host.applications.filter fun application => application.halt.isNone

/-- The assembly is built, when there is one; whatever comes of it, it is used up. -/
def build (host : Host) : Option Built × Host :=
  match host.assembly with
  | none => (none, host)
  | some assembly =>
    match assembly.build host.applications host.memory with
    | (.value application, memory) =>
      (some (.of host.built.length application),
        { host with
          assembly := none
          applications := host.applications ++ [application]
          memory := memory })
    | (.error error, memory) =>
      (some (.failed error), { host with assembly := none, memory := memory })
    | (.panic message, memory) =>
      (some (.panicked message), { host with assembly := none, memory := memory })
    | (.exhausted, memory) => (some .exhausted, { host with assembly := none, memory := memory })

/-- A question to the pool at a path. -/
def ask (host : Host) (path : PoolPath) (query : PoolQuery) : Answer × Host :=
  match path.resolve? host.applications with
  | none => (.nothing, host)
  | some pool =>
    match pool.answer host.applications query host.memory with
    | (.value answer, memory) => (answer, { host with memory := memory })
    | (.panic message, memory) => (.panicked message, { host with memory := memory })
    | (.exhausted, memory) => (.exhausted, { host with memory := memory })

/-- What can be seen of the pools of an application: those of its scopes, then the exports. -/
def contents (host : Host) (application : Application) : List PoolView :=
  (application.pools ++ [application.exports]).map host.memory.viewOfPool

/-- Two paths lead to the same pool of what was built, when both lead to one. -/
def samePool? (host : Host) (left right : PoolPath) : Option Bool := do
  let first ← host.built[left.application]?
  let second ← host.built[right.application]?
  let firstPosition ← first.position? left.pool
  let secondPosition ← second.position? right.pool
  return left.application == right.application && firstPosition == secondPosition

/-- Two visible entries share an accessor, when both are there. -/
def shares? (host : Host) (left : PoolPath × Key) (right : PoolPath × Key) : Option Bool := do
  let first ← (← left.1.resolve? host.applications).find? left.2
  let second ← (← right.1.resolve? host.applications).find? right.2
  return first.sharesAccessor second

/-- The notes and the events since the last time, and the host without them. -/
def collect (host : Host) : List Note × List Event × Host :=
  (host.memory.notes, host.memory.events, { host with memory := host.memory.cleared })

end Host

end Wiring
