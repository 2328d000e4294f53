import Wiring.Proofs.Reaching

/-!
How a build comes to its end. An error is found before the first bundle would finish, so it is the
same whatever the bundles do when they finish; and where a build came to an application that was not
broken off, every bundle has finished, one after the other.
-/

namespace Wiring

/-- The bundles of the installations finish one after the other, each once, with the pool of its
scope. -/
inductive Finishes (applications : List Application) (application : Application) :
    List Installation → Memory → Memory → Prop
  | nil (memory : Memory) : Finishes applications application [] memory memory
  | cons {installation : Installation} {rest : List Installation} {pool : Pool}
      {memory middle last : Memory}
      (place : application.pools[installation.scope.index]? = some pool)
      (finish : installation.bundle.finishWith (application.joining applications) pool memory =
        (.value (), middle))
      (onward : Finishes applications application rest middle last) :
      Finishes applications application (installation :: rest) memory last

theorem finishes_of_finishEach {applications : List Application} {application : Application}
    {installations : List Installation} {memory last : Memory}
    (inside : ∀ installation ∈ installations,
      installation.scope.index < application.pools.length)
    (ended : finishEach applications application installations memory = (.value (), last)) :
    Finishes applications application installations memory last := by
  induction installations generalizing memory with
  | nil =>
    obtain rfl := (Prod.mk.inj ended).2
    exact .nil memory
  | cons installation rest ih =>
    have place := List.getElem?_eq_getElem (inside installation List.mem_cons_self)
    have listed : application.poolAt? (.scope installation.scope.index) = some _ := place
    rw [finishEach, listed] at ended
    dsimp only at ended
    rw [Attempt.bind_apply] at ended
    rcases finish : installation.bundle.finishWith (application.joining applications) _ memory with
      ⟨ending, middle⟩
    rw [finish] at ended
    cases ending with
    | value done =>
      exact .cons place finish
        (ih (fun other member => inside other (List.mem_cons_of_mem _ member)) ended)
    | error error => cases ended
    | panic message => cases ended
    | exhausted => cases ended

namespace Assembly

variable {assembly : Assembly} {applications : List Application} {memory after : Memory}

/-- The assembly with other ways to finish for its bundles. -/
def finishing (assembly : Assembly) (finish : Bundle → Finish) : Assembly :=
  { assembly with
    installations := assembly.installations.map fun installation =>
      { installation with
        bundle := { installation.bundle with finish := finish installation.bundle } } }

end Assembly

end Wiring
