import Wiring.Proofs.Honesty
import Wiring.Stock

/-!
The meaning of a resolved assembly: what each entry comes to, by recursion over what it needs,
without a memory, an order of events or a mode. Where the factories are pure, every compiled
accessor comes to the meaning of its entry, whether it was made at once or is yet to be made.
-/

namespace Wiring

open Relation

/-- An outcome that stands where there is no entry. -/
def Outcome.unknown : Outcome := .error (.reentrant (.of .u8))

namespace Blueprint

/-- What an entry comes to, when the entries that it needs come to the given outcomes. -/
def evaluate (blueprint : Blueprint) (outcomes : EntryId → Outcome) (id : EntryId) (entry : Entry) :
    Outcome :=
  match entry.origin with
  | .given handle => .ok handle.value
  | .delegate (.entry target) => outcomes target
  | .delegate (.foreign imported) => imported.accessor.outcome
  | .made factory =>
    (blueprint.producerOf id entry factory).outcome
      ((blueprint.linked id entry).map fun link => (link.1, outcomes link.2))

/-- The outcomes solve the equations of all entries. -/
def Denotes (blueprint : Blueprint) (outcomes : EntryId → Outcome) : Prop :=
  ∀ id entry, blueprint.entries[id.index]? = some entry →
    outcomes id = blueprint.evaluate outcomes id entry

/-- What an entry comes to, by recursion to the given depth. -/
def meaningWithin (blueprint : Blueprint) : Nat → EntryId → Outcome
  | 0, _ => .unknown
  | depth + 1, id =>
    match blueprint.entries[id.index]? with
    | none => .unknown
    | some entry => blueprint.evaluate (blueprint.meaningWithin depth) id entry

/-- What an entry comes to. No chain of needs is longer than the list of entries. -/
def meaning (blueprint : Blueprint) (id : EntryId) : Outcome :=
  blueprint.meaningWithin blueprint.entries.length id

variable {blueprint : Blueprint} {outcomes others : EntryId → Outcome} {id : EntryId}
  {entry : Entry} {rank : Nat → Nat}

/-- The outcome of an entry depends only on those of the entries that it needs. -/
theorem evaluate_congr (found : blueprint.entries[id.index]? = some entry)
    (agree : ∀ next : EntryId, blueprint.Needs id.index next.index → outcomes next = others next) :
    blueprint.evaluate outcomes id entry = blueprint.evaluate others id entry := by
  unfold evaluate
  cases origin : entry.origin with
  | given handle => rfl
  | delegate target =>
    cases target with
    | foreign imported => rfl
    | entry target => exact agree target (.target found origin)
  | made factory =>
    dsimp only
    congr 1
    apply List.map_congr_left
    intro link member
    rw [agree link.2 (.link found origin member)]

/-- Beyond its rank the depth makes no difference to an entry. -/
theorem meaningWithin_eq (ranked : blueprint.Ranked rank) {depth deeper : Nat}
    (inside : id.index < blueprint.entries.length) (low : rank id.index < depth)
    (lower : rank id.index < deeper) :
    blueprint.meaningWithin depth id = blueprint.meaningWithin deeper id := by
  induction depth generalizing id deeper with
  | zero => omega
  | succ depth ih =>
    obtain ⟨deeper, rfl⟩ : ∃ less, deeper = less + 1 := ⟨deeper - 1, by omega⟩
    have found := List.getElem?_eq_getElem inside
    simp only [meaningWithin, found]
    apply evaluate_congr found
    intro next needs
    obtain ⟨within, less⟩ := ranked.needs _ _ needs
    exact ih within (by omega) (by omega)

/-- The meaning solves the equations of all entries. -/
theorem denotes_meaning (ranked : blueprint.Ranked rank) :
    blueprint.Denotes blueprint.meaning := by
  intro id entry found
  have inside := (List.getElem?_eq_some_iff.mp found).1
  have bounded := ranked.bounded id.index inside
  have deeper : blueprint.meaning id =
      blueprint.meaningWithin (blueprint.entries.length + 1) id :=
    meaningWithin_eq ranked inside bounded (Nat.lt_succ_of_lt bounded)
  rw [deeper]
  simp only [meaningWithin, found]
  rfl

/-- The equations have one solution. -/
theorem Denotes.unique (denotes : blueprint.Denotes outcomes) (ranked : blueprint.Ranked rank)
    (solves : blueprint.Denotes others) {bound : Nat} (low : rank id.index < bound)
    (found : blueprint.entries[id.index]? = some entry) : outcomes id = others id := by
  induction bound generalizing id entry with
  | zero => omega
  | succ bound ih =>
    rw [denotes id entry found, solves id entry found]
    apply evaluate_congr found
    intro next needs
    obtain ⟨within, less⟩ := ranked.needs _ _ needs
    exact ih (by omega) (List.getElem?_eq_getElem within)

/-- The factories of a blueprint are determined by the values of their dependencies, and what it
imports is pure. -/
structure Pure (blueprint : Blueprint) : Prop where
  factories : ∀ {id : EntryId} {entry : Entry} {factory : Factory},
    blueprint.entries[id.index]? = some entry → entry.origin = .made factory →
      Behaviour.Determined factory.behaviour entry.key entry.dependencies
  imports : ∀ {id : EntryId} {entry : Entry} {imported : RuntimeEntry},
    blueprint.entries[id.index]? = some entry → entry.origin = .delegate (.foreign imported) →
      imported.accessor.Pure

end Blueprint

/-- Every compiled accessor is pure and comes to the outcome of its entry. -/
def Compiled.Agrees (compiled : Compiled) (outcomes : EntryId → Outcome) : Prop :=
  ∀ id accessor, compiled id = some accessor → accessor.Pure ∧ accessor.outcome = outcomes id

namespace Compiled

variable {compiled : Compiled} {outcomes : EntryId → Outcome} {links : List (Key × EntryId)}
  {dependencies : List (Key × Accessor)}

/-- Dependencies that are compiled come to the outcomes of their providers. -/
theorem Agrees.outcomes_eq (agrees : compiled.Agrees outcomes)
    (covers : compiled.Covers links dependencies) :
    Accessor.outcomes dependencies = links.map fun link => (link.1, outcomes link.2) := by
  rw [Accessor.outcomes_eq_map]
  apply map_eq_map_of_forall₂ covers
  intro link dependency fits
  rw [fits.1, (agrees _ _ fits.2).2]

/-- Dependencies that are compiled are pure. -/
theorem Agrees.pure (agrees : compiled.Agrees outcomes)
    (covers : compiled.Covers links dependencies) {dependency : Key × Accessor}
    (member : dependency ∈ dependencies) : dependency.2.Pure := by
  obtain ⟨link, -, fits⟩ := exists_of_forall₂_right covers member
  exact (agrees _ _ fits.2).1

/-- One more compiled entry that comes to its outcome. -/
theorem Agrees.add (agrees : compiled.Agrees outcomes) {id : EntryId} {accessor : Accessor}
    (pure : accessor.Pure) (ends : accessor.outcome = outcomes id) :
    (compiled.add id accessor).Agrees outcomes := by
  intro other found known
  rcases add_cases known with ⟨rfl, rfl⟩ | old
  · exact ⟨pure, ends⟩
  · exact agrees other found old

end Compiled

namespace Blueprint

variable {blueprint : Blueprint} {assembly : Assembly} {applications : List Application}
  {spent : Nat → Prop} {base : Accessor → Prop} {state after : Memory × Compiled}
  {outcomes : EntryId → Outcome} {mode : InstantiationMode} {compiled : Compiled} {id : EntryId}
  {entry : Entry} {factory : Factory} {dependencies : List (Key × Accessor)}

theorem Denotes.of_given (denotes : blueprint.Denotes outcomes)
    (found : blueprint.entries[id.index]? = some entry) {handle : Instance}
    (origin : entry.origin = .given handle) : outcomes id = .ok handle.value := by
  rw [denotes id entry found, evaluate, origin]

theorem Denotes.of_target (denotes : blueprint.Denotes outcomes)
    (found : blueprint.entries[id.index]? = some entry) {target : EntryId}
    (origin : entry.origin = .delegate (.entry target)) : outcomes id = outcomes target := by
  rw [denotes id entry found, evaluate, origin]

theorem Denotes.of_foreign (denotes : blueprint.Denotes outcomes)
    (found : blueprint.entries[id.index]? = some entry) {imported : RuntimeEntry}
    (origin : entry.origin = .delegate (.foreign imported)) :
    outcomes id = imported.accessor.outcome := by
  rw [denotes id entry found, evaluate, origin]

/-- A prepared factory comes to what its compiled dependencies decide. -/
theorem Denotes.of_prepared (denotes : blueprint.Denotes outcomes)
    (prepares : blueprint.Prepares mode compiled id entry factory dependencies)
    (agrees : compiled.Agrees outcomes) :
    outcomes id =
      (blueprint.producerOf id entry factory).outcome (Accessor.outcomes dependencies) := by
  rw [denotes id entry prepares.found, agrees.outcomes_eq prepares.covers, evaluate,
    prepares.origin]

/-- A prepared factory is determined by the values of its compiled dependencies. -/
theorem Pure.determined (pure : blueprint.Pure) (sound : blueprint.Sound assembly)
    (prepares : blueprint.Prepares mode compiled id entry factory dependencies) :
    Behaviour.Determined (blueprint.producerOf id entry factory).behaviour
      (blueprint.producerOf id entry factory).key (dependencies.map Prod.fst) := by
  have keys := map_eq_map_of_forall₂ prepares.covers fun _ _ fits => fits.1
  rw [keys, sound.keys prepares.found prepares.origin]
  exact pure.factories prepares.found prepares.origin

/-- The invocation of a prepared factory comes to the outcome of its entry. -/
theorem Pure.yields_invocation (pure : blueprint.Pure)
    (grounded : blueprint.Grounded assembly applications spent base)
    (progress : blueprint.Progress spent base state)
    (honest : (Discipline.honest (state.2.Gathers base) True).holds state.1)
    (denotes : blueprint.Denotes outcomes) (agrees : state.2.Agrees outcomes)
    (prepares : blueprint.Prepares mode state.2 id entry factory dependencies) :
    (blueprint.invocation applications id entry factory dependencies).Yields state.1
      (fun handle _ => outcomes id = .ok handle.value) (fun error _ => outcomes id = .error error)
      fun _ => False := by
  have family := progress.family grounded
  have covered := progress.covered (grounded.sound.linked prepares.found prepares.origin)
    prepares.covers
  have each (dependency : Key × Accessor) (member : dependency ∈ dependencies) :
      state.2.Gathers base dependency.2 ∧ dependency.2.Pure ∧
        dependency.2.type = dependency.1.type ∧ dependency.2.Settles (state.2.Gathers base)
          (surroundings applications state.1.depth) := by
    obtain ⟨gathers, type⟩ := covered dependency member
    have pure := agrees.pure prepares.covers member
    exact ⟨gathers, pure, type, family.settles (Discipline.latching_surrounded _ _) gathers pure⟩
  have steady (dependency : Key × Accessor) (member : dependency ∈ dependencies) :
      dependency.2.Steady state.1 :=
    Discipline.steady_of_honest family (covered dependency member).1
      (agrees.pure prepares.covers member) honest
  have yields := (family.yields_invoke (pure.determined grounded.sound prepares) each steady).mono
    (fun _ _ ends => ends.1) (fun _ _ ends => ends.1) fun _ never => never
  rw [denotes.of_prepared prepares agrees]
  unfold Attempt.Yields at yields ⊢
  rw [invocation_apply]
  exact yields

/-- Every step of a compilation gives its entry an accessor that comes to its outcome. -/
theorem Step.agrees (step : blueprint.Step applications state after) (pure : blueprint.Pure)
    (grounded : blueprint.Grounded assembly applications spent base)
    (progress : blueprint.Progress spent base state)
    (honest : (Discipline.honest (state.2.Gathers base) True).holds state.1)
    (denotes : blueprint.Denotes outcomes) (agrees : state.2.Agrees outcomes) :
    after.2.Agrees outcomes := by
  cases step with
  | reported event => exact agrees
  | given fresh found origin =>
    exact agrees.add (.of_dependencies nofun nofun) (denotes.of_given found origin).symm
  | shared fresh found origin known =>
    obtain ⟨pure, ends⟩ := agrees _ _ known
    exact agrees.add pure (ends.trans (denotes.of_target found origin).symm)
  | imported fresh found origin =>
    exact agrees.add (pure.imports found origin) (denotes.of_foreign found origin).symm
  | lazy prepares =>
    refine agrees.add (.of_dependencies ?_ fun _ member => agrees.pure prepares.covers member)
      (denotes.of_prepared prepares agrees).symm
    intro _ same
    cases same
    exact pure.determined grounded.sound prepares
  | prototype prepares =>
    refine agrees.add (.of_dependencies ?_ fun _ member => agrees.pure prepares.covers member)
      (denotes.of_prepared prepares agrees).symm
    intro _ same
    cases same
    exact pure.determined grounded.sound prepares
  | constant prepares invoked =>
    have ends := (pure.yields_invocation grounded progress honest denotes agrees prepares).of_value
      invoked
    exact agrees.add (.of_dependencies nofun nofun) ends.symm

/-- Everything that is compiled from nothing comes to its outcome. -/
theorem Steps.agrees {memory : Memory}
    (steps : blueprint.Steps applications (memory, Compiled.empty) after) (pure : blueprint.Pure)
    (grounded : blueprint.Grounded assembly applications spent base)
    (arena : Arena spent base memory)
    (honest : (Discipline.honest (Compiled.empty.Gathers base) True).holds memory)
    (denotes : blueprint.Denotes outcomes) : after.2.Agrees outcomes := by
  induction steps with
  | refl => exact fun _ _ known => nomatch known
  | tail steps step ih =>
    have progress := Steps.progress steps grounded (.start arena)
    exact step.agrees pure grounded progress (Steps.honest steps grounded (.start arena) honest)
      denotes ih

end Blueprint

end Wiring
