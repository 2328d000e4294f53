import Wiring.Asking
import Wiring.Compilation

/-!
Building: an assembly is resolved, each scope becomes a pool, and every installed bundle finishes
with the pool of its scope. An assembly whose resolution finds problems, or one of whose constants
fails, gives an error and no bundle finishes. A bundle that is broken off leaves an application
behind that is not built: only those who hold a pool of it can ask it.
-/

namespace Wiring

/-- A step of a build. -/
abbrev Build (α : Type) : Type := Attempt Memory BuildError α

namespace Build

/-- An event is reported. -/
def report (event : Event) : Build Unit :=
  Attempt.change fun memory => memory.report event

/-- The answer to a question. -/
def ask {α : Type} (asking : Asking α) : Build α := asking.mapError nofun

end Build

/-- A bundle takes its steps with the pool of its scope. -/
def takeSteps (applications : List Application) (pool : Pool) : List FinishStep → Build Unit
  | [] => return ()
  | .panic message :: _ => Attempt.panic message
  | .ask query :: rest => do
    let answer ← Build.ask (pool.answer applications query)
    Attempt.change fun memory => memory.write (.finished answer)
    takeSteps applications pool rest

/-- The tracing configuration that is visible in a pool is put in force. -/
def startTracing (applications : List Application) (pool : Pool) : Build Unit := do
  let outcome ← Build.ask (pool.getKeyed applications (Key.of .tracingConfig) .tracingConfig)
  match outcome with
  | .error error => Build.report (.tracingUnavailable error pool.name)
  | .ok handle =>
    match handle.value.as? .tracingConfig with
    | none => return ()
    | some config => Build.report (.tracingInitialized config.level config.format pool.name)

/-- A bundle finishes with the pool of its scope. -/
def Bundle.finishWith (applications : List Application) (bundle : Bundle) (pool : Pool) :
    Build Unit := do
  match bundle.finish with
  | .nothing => return ()
  | .tracing _ => startTracing applications pool
  | .script label steps =>
    Attempt.change fun memory => memory.write (.finishing label pool.name)
    takeSteps applications pool steps

/-- The installed bundles finish, in the order of their installation, and give the pools of the
application to whom they like. -/
def finishEach (applications : List Application) (application : Application) :
    List Installation → Build Unit
  | [] => return ()
  | installation :: rest => do
    match application.poolAt? (.scope installation.scope.index) with
    | none => pure ()
    | some pool => installation.bundle.finishWith (application.joining applications) pool
    finishEach applications application rest

namespace Assembly

/-- What the compilation of a resolved assembly works from. -/
def blueprint (assembly : Assembly) (resolution : Resolution) : Blueprint where
  assembly := assembly.number
  defaultMode := assembly.config.defaultMode
  entries := resolution.entries
  links := resolution.links

/-- The application of a resolved assembly, before its bundles finish. -/
def compile (assembly : Assembly) (applications : List Application) (resolution : Resolution) :
    Compiling Application := do
  let blueprint := assembly.blueprint resolution
  let pools ← blueprint.pools applications (resolution.registries.zip assembly.scopes) []
  let exports ← blueprint.pool applications (assembly.config.name ++ ":exports") none
    resolution.exports
  return ⟨pools, exports, some .finishing⟩

/-- The bundles of a compiled application finish. When one of them is broken off, the application
stays behind with the pools that bundles were given. -/
def finish (assembly : Assembly) (applications : List Application) (application : Application) :
    Build Application := fun memory =>
  match finishEach applications application assembly.installations memory with
  | (.value (), memory) =>
    (.value { application with halt := none }, memory.report (.assemblyBuilt assembly.config.name))
  | (.error error, memory) => (.error error, memory)
  | (.panic message, memory) =>
    (.value { application with halt := some (.panicked message) }, memory)
  | (.exhausted, memory) => (.value { application with halt := some .exhausted }, memory)

/-- The application of an assembly, built among those that are there already. -/
def build (assembly : Assembly) (applications : List Application) : Build Application := do
  Build.report
    (.buildStarted assembly.config.name assembly.scopes.length assembly.entries.length
      assembly.installations.length)
  let resolution := assembly.survey
  resolution.events.forM Build.report
  if resolution.accepted then
    let application ← fun memory =>
      match assembly.compile applications resolution (memory, Compiled.empty) with
      | (ending, state) => (ending, state.1)
    assembly.finish applications application
  else
    Attempt.fail (.invalid resolution.diagnostics)

end Assembly

end Wiring
