import Wiring.Json.Written

/-!
The facts that an application can ask about the assembly it was built from.
-/

namespace Wiring

/-- The name of an assembly, the version of the library and whether it was built for debugging. -/
structure AssemblyInfo where
  name : String
  version : String
  debug : Bool
deriving DecidableEq, Repr

/-- The facts about the assembly with the given name. -/
def AssemblyInfo.named (name : String) : AssemblyInfo where
  name := name
  version := "0.0.1"
  debug := true

/-- The facts in JSON form. -/
def AssemblyInfo.json (info : AssemblyInfo) : String :=
  Json.object
    [("name", Json.string info.name), ("version", Json.string info.version),
      ("debug", Json.bool info.debug)]

end Wiring
