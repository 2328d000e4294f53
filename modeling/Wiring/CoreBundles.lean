import Wiring.Declaration

/-!
The bundles that come with the library: facts about the assembly, the configuration of tracing,
and the two collections of them.
-/

namespace Wiring

/-- A bundle with what it declares when it is installed. -/
structure Package where
  bundle : Bundle
  configure : Config → List Declaration

namespace Package

/-- The bundle declares into the scope where it is installed. -/
def install (package : Package) : Declaration := .install package.bundle package.configure

/-- The bundle declares into a new scope. -/
def link (package : Package) (name : String) : Declaration :=
  .link name package.bundle package.configure

/-- A bundle that provides the facts about its assembly. -/
def assemblyInfo : Package where
  bundle := ⟨"lodestar_core_bundles::assembly_info::AssemblyInfoBundle", .nothing⟩
  configure config :=
    [.provide (.given ⟨.assemblyInfo, AssemblyInfo.named config.name⟩ none)
      [.describe "assembly metadata"]]

/-- A bundle that provides a configuration of tracing and puts it in force when it finishes. -/
def tracing (settings : TracingConfig) : Package where
  bundle := ⟨"lodestar_core_bundles::tracing_bundle::TracingBundle", .tracing settings⟩
  configure _ :=
    [.provide (.given ⟨.tracingConfig, settings⟩ none)
      [.describe "tracing subscriber configuration"]]

/-- The facts about the assembly and nothing else. -/
def minimal : Package where
  bundle := ⟨"lodestar_core_bundles::MinimalBundles", .nothing⟩
  configure _ := [assemblyInfo.install]

/-- The facts about the assembly and the configuration of tracing. -/
def default (settings : TracingConfig) : Package where
  bundle := ⟨"lodestar_core_bundles::DefaultBundles", .nothing⟩
  configure _ := [assemblyInfo.install, (tracing settings).install]

end Package

end Wiring
