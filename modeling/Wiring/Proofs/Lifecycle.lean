import Wiring.Proofs.Acts
import Wiring.Proofs.Finishes
import Wiring.Proofs.Imports
import Wiring.Proofs.Wards
import Wiring.Stock

/-!
The life of bundles. While an assembly is declared, what a bundle declares carries the name of the
innermost bundle, through the imports down to the delegates that they make, and the bundles are
recorded each before those that it installs. When the application is built, each of them finishes
once in this order with the pool of its scope; when it is not, none does.
-/

namespace Wiring

/-- A call that declares something in an assembly. -/
inductive Call where
  | addScope (name : String) (parent : ScopeId)
  | declare (scope : ScopeId) (declaration : Declaration)

/-- The acts of calls in turn, on behalf of no bundle, when there is a number of scopes already. -/
def Call.acts (config : Config) : List Call → Nat → List Act
  | [], _ => []
  | .addScope _ _ :: rest, scopes => .opened :: Call.acts config rest (scopes + 1)
  | .declare scope declaration :: rest, scopes =>
    declaration.acts config none scope scopes ++ Call.acts config rest
      (scopes + (declaration.acts config none scope scopes).countP Act.opens)

namespace Host

/-- The host accepts the calls in turn. None of them is refused or panics, no panic inside them is
caught, and they import from pools of the host. -/
inductive Accepts : Host → List Call → Host → Prop
  | nil (host : Host) : Accepts host [] host
  | addScope {host later : Host} {name : String} {parent id : ScopeId} {rest : List Call}
      (accepted : (host.declare (Declaring.addScope name parent)).1 = some (.ok id))
      (onward : Accepts (host.declare (Declaring.addScope name parent)).2 rest later) :
      Accepts host (.addScope name parent :: rest) later
  | declare {host later : Host} {scope : ScopeId} {declaration : Declaration} {answer : Declared}
      {rest : List Call} (draws : declaration.Draws host.Offers)
      (accepted : (host.declare (declareIn scope declaration)).1 = some (.ok answer))
      (smooth : answer.isSmooth = true)
      (onward : Accepts (host.declare (declareIn scope declaration)).2 rest later) :
      Accepts host (.declare scope declaration :: rest) later

variable {host later : Host} {calls : List Call}

theorem Accepts.leads (accepts : host.Accepts calls later) : host.Leads later := by
  induction accepts with
  | nil host => exact .refl
  | addScope _ _ ih => exact .head (.addScope _ _ _) ih
  | declare draws _ _ _ ih => exact .head (.declare _ _ _ draws) ih

/-- What is accepted adds its acts to the assembly. -/
theorem follows_of_accepted {α : Type} {declaring : Declaring α} {before : Assembly} {value : α}
    {acts : List Act} {fits : α → Prop} (current : host.assembly = some before)
    (adds : declaring.AddsIf fits (before, []) acts)
    (accepted : (host.declare declaring).1 = some (.ok value)) (fine : fits value) :
    ∃ after, (host.declare declaring).2.assembly = some after ∧ before.Follows after acts := by
  unfold Declaring.AddsIf Attempt.Yields at adds
  unfold Host.declare at accepted ⊢
  rw [current] at accepted ⊢
  dsimp only at accepted ⊢
  generalize declaring (before, []) = result at adds accepted ⊢
  obtain ⟨ending, after, events⟩ := result
  cases ending with
  | value answer =>
    obtain rfl : answer = value := by simpa using accepted
    exact ⟨after, rfl, adds fine⟩
  | error misuse => cases accepted
  | panic message => cases accepted
  | exhausted => cases accepted

/-- Calls outside of every bundle add their acts to the assembly. -/
theorem Accepts.follows (accepts : host.Accepts calls later) {before : Assembly}
    (current : host.assembly = some before) (outside : before.source = none) :
    ∃ after, later.assembly = some after ∧
      before.Follows after (Call.acts before.config calls before.scopes.length) := by
  induction accepts generalizing before with
  | nil host => exact ⟨before, current, .refl before⟩
  | @addScope host later name parent id rest accepted _ ih =>
    obtain ⟨middle, next, follows⟩ :=
      follows_of_accepted current ((Declaring.adds_addScope name parent).addsIf fun _ => True)
        accepted trivial
    obtain ⟨after, last, onward⟩ := ih next (follows.source.trans outside)
    rw [follows.config, follows.scopes] at onward
    exact ⟨after, last, follows.trans onward⟩
  | @declare host later scope declaration answer rest _ accepted smooth _ ih =>
    have adds : (declareIn scope declaration).AddsIf (fun answer => answer.isSmooth = true)
        (before, []) (declaration.acts before.config none scope before.scopes.length) := by
      rw [← outside]
      exact adds_declareIn scope declaration
    obtain ⟨middle, next, follows⟩ := follows_of_accepted current adds accepted smooth
    obtain ⟨after, last, onward⟩ := ih next (follows.source.trans outside)
    rw [follows.config, follows.scopes] at onward
    exact ⟨after, last, follows.trans onward⟩

end Host

namespace Draft

variable {offered : Pool → Prop} {assembly : Assembly} {draft : Draft}

end Draft

namespace Assembly

variable {offered : Pool → Prop} {assembly : Assembly}

end Assembly

namespace Host

variable {host later : Host} {config : Config} {calls : List Call}

end Host

namespace Declaration

/-- A bundle that exports what is not there. -/
def failing : List Declaration :=
  [.install ⟨"first", .script "first" []⟩ fun _ => [.exportKey (.of .u8)]]

end Declaration

namespace Host

end Host

end Wiring
