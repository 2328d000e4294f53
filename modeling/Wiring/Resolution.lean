import Wiring.Resolution.Exporting
import Wiring.Resolution.ImportOrder
import Wiring.Resolution.Linking
import Wiring.Resolution.Population

/-!
Resolution: from declarations to registries and links. The phases are run to their end whatever
they find, so that the diagnostics hold every problem: scopes are filled in the order of their
imports, exports move outward, dependencies are linked, and circles and forbidden shadowing are
recorded.
-/

namespace Wiring

/-- The outcome of a resolution. It is accepted when there are no diagnostics. -/
structure Resolution where
  entries : List Entry
  registries : List Registry
  exports : Registry
  links : List (List EntryId)
  diagnostics : Diagnostics
  events : List Event

namespace Resolution

/-- The resolution found no problem. -/
def accepted (resolution : Resolution) : Bool := resolution.diagnostics.isEmpty

end Resolution

namespace Assembly

/-- The circles of imports are recorded. -/
def orderedDraft (assembly : Assembly) : Draft :=
  let draft := Draft.start assembly.scopes assembly.entries
  { draft with
    diagnostics := (importCycles assembly.scopes).foldl Diagnostics.recordImportCycle
      draft.diagnostics }

/-- Every scope has its providers and its imports. -/
def populatedDraft (assembly : Assembly) : Draft :=
  (importOrder assembly.scopes).foldl (Draft.populate assembly.scopes) assembly.orderedDraft

/-- Every scope has exported what it has to export. -/
def exportedDraft (assembly : Assembly) : Draft :=
  (exportOrder assembly.scopes assembly.scopes.length .root).foldl
    (Draft.exportFrom assembly.scopes) assembly.populatedDraft

/-- All problems but forbidden shadowing are recorded. -/
def linkedDraft (assembly : Assembly) : Draft :=
  let draft := assembly.exportedDraft
  (draft.link assembly.scopes).recordCycles draft.links

/-- All problems are recorded. -/
def finalDraft (assembly : Assembly) : Draft :=
  let draft := assembly.linkedDraft
  if assembly.config.allowShadowing then draft else draft.rejectShadowing assembly.scopes

/-- The resolution of an assembly, with all its problems. -/
def survey (assembly : Assembly) : Resolution :=
  let draft := assembly.finalDraft
  { entries := draft.entries
    registries := draft.registries
    exports := draft.exports
    links := assembly.exportedDraft.links
    diagnostics := draft.diagnostics
    events :=
      if draft.diagnostics.isEmpty then draft.events
      else draft.events ++ [.resolutionFailed draft.diagnostics.counts] }

/-- The resolution of an assembly that has no problem. -/
def resolve (assembly : Assembly) : Except Diagnostics Resolution :=
  let resolution := assembly.survey
  if resolution.accepted then .ok resolution else .error resolution.diagnostics

end Assembly

end Wiring
