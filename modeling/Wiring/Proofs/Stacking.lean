import Wiring.Proofs.Compilations

/-!
The pools that a compilation leaves. Each layer holds one entry for each registration, in the same
order and with the accessor that was compiled for it, and each pool stands on that of its parent.
-/

namespace Wiring

/-- The layer has one entry for each registration, with the accessor that was compiled for it. -/
def Layer.Matches (layer : Layer) (registry : Registry) (compiled : Compiled) : Prop :=
  List.Forall₂ (fun pair item => item.1 = pair.1 ∧ item.2.key = pair.1 ∧
    compiled pair.2 = some item.2.accessor) registry.registrations layer.entries

/-- Each pool has the layer of its scope on top of the layers of the parent scope, which comes
before it. -/
def Stacked (scopes : List (Registry × Scope)) (compiled : Compiled) (pools : List Pool) : Prop :=
  ∀ (index : Nat) (pool : Pool), pools[index]? = some pool →
    ∃ registry scope, scopes[index]? = some (registry, scope) ∧ pool.layer.name = scope.name ∧
      pool.layer.Matches registry compiled ∧
      pool.ancestors = ((scope.parent.bind fun parent => (pools.take index)[parent.index]?).map
        Pool.layers).getD []

/-- Every registration names an entry of the blueprint. -/
def Registry.Inside (registry : Registry) (blueprint : Blueprint) : Prop :=
  ∀ pair ∈ registry.registrations, pair.2.index < blueprint.entries.length

theorem Layer.Matches.mono {blueprint : Blueprint} {applications : List Application}
    {state after : Memory × Compiled} {layer : Layer} {registry : Registry}
    (fits : layer.Matches registry state.2) (steps : blueprint.Steps applications state after) :
    layer.Matches registry after.2 :=
  List.Forall₂.imp (fun _ _ fits => ⟨fits.1, fits.2.1, steps.extends fits.2.2⟩) fits

/-- A layer has an entry under a key when the registry has one, and it has the accessor that was
compiled for it. -/
theorem Layer.Matches.rel_find? {layer : Layer} {registry : Registry} {compiled : Compiled}
    (fits : layer.Matches registry compiled) (key : Key) :
    Option.Rel (fun id entry => entry.key = key ∧ compiled id = some entry.accessor)
      (registry.get? key) (layer.find? key) :=
  rel_find?_of_keyed fits (fun _ _ fit => fit.1) fun _ _ fit here => ⟨fit.2.1.trans here, fit.2.2⟩

namespace Blueprint

variable {blueprint : Blueprint} {applications : List Application} {rank : Nat → Nat}
  {state after : Memory × Compiled}

/-- A pool is compiled step by step. -/
theorem pool_yields (ranked : blueprint.Ranked rank) (applications : List Application)
    (name : String) (parent : Option Pool) {registry : Registry}
    (inside : registry.Inside blueprint) (state : Memory × Compiled) :
    (blueprint.pool applications name parent registry).Yields state
      (fun pool after => blueprint.Steps applications state after ∧ pool.layer.name = name ∧
        pool.layer.Matches registry after.2 ∧
        pool.ancestors = (parent.map Pool.layers).getD [])
      (fun error after => blueprint.Fails applications state error after)
      (fun after => blueprint.Breaks applications state after) := by
  unfold pool Registry.compileEach
  rw [Attempt.yields_bind]
  refine (Attempt.yields_forEach (blueprint.Steps applications) (fun _ => .refl)
    (fun steps onward => steps.trans onward)
    (fun (pair : Key × EntryId) (item : Key × RuntimeEntry) (state : Memory × Compiled) =>
      item.1 = pair.1 ∧ item.2.key = pair.1 ∧ state.2 pair.2 = some item.2.accessor)
    (fun steps fits => ⟨fits.1, fits.2.1, steps.extends fits.2.2⟩)
    (fun steps fails => fails.of_steps steps) (fun steps breaks => breaks.of_steps steps)
    ?_ state).mono ?_ (fun _ _ kept => kept) (fun _ kept => kept)
  · intro pair member state
    have within := inside pair member
    simp only [runtimeEntry, Attempt.yields_andThen, Attempt.yields_bind]
    refine (accessor_yields ranked applications within (ranked.bounded _ within) state).mono ?_
      (fun _ _ kept => kept) (fun _ kept => kept)
    intro accessor after yielded
    obtain ⟨reaches, known⟩ := yielded
    exact ⟨reaches.1, rfl, rfl, known⟩
  · intro entries after yielded
    obtain ⟨steps, fits⟩ := yielded
    exact ⟨steps, rfl, fits, rfl⟩

/-- The pools of the scopes are compiled step by step, on top of those that are there. -/
theorem pools_yields (ranked : blueprint.Ranked rank) (applications : List Application)
    {scopes : List (Registry × Scope)} (before : List (Registry × Scope))
    {rest : List (Registry × Scope)} (split : scopes = before ++ rest)
    (inside : ∀ pair ∈ scopes, pair.1.Inside blueprint) {done : List Pool}
    (length : done.length = before.length) (state : Memory × Compiled)
    (stacked : Stacked scopes state.2 done) :
    (blueprint.pools applications rest done).Yields state
      (fun pools after => blueprint.Steps applications state after ∧
        pools.length = scopes.length ∧ Stacked scopes after.2 pools)
      (fun error after => blueprint.Fails applications state error after)
      (fun after => blueprint.Breaks applications state after) := by
  induction rest generalizing before done state with
  | nil =>
    refine ⟨.refl, ?_, stacked⟩
    rw [split, List.append_nil, length]
  | cons pair rest ih =>
    obtain ⟨registry, scope⟩ := pair
    have here : scopes[done.length]? = some (registry, scope) := by
      rw [split, length, List.getElem?_append_right (Nat.le_refl _)]
      simp
    simp only [pools, Attempt.yields_bind]
    refine (pool_yields ranked applications scope.name _
      (inside _ (List.mem_of_getElem? here)) state).mono ?_ (fun _ _ kept => kept)
      (fun _ kept => kept)
    intro pool middle yielded
    obtain ⟨steps, name, fits, ancestors⟩ := yielded
    have further : blueprint.Steps applications state
        (middle.1.report (.poolCompiled scope.name pool.layer.entries.length), middle.2) :=
      steps.tail (.reported _)
    have grown : Stacked scopes middle.2 (done ++ [pool]) := by
      intro index other found
      rcases getElem?_append_singleton_cases found with old | ⟨rfl, rfl⟩
      · have inside := (List.getElem?_eq_some_iff.mp old).1
        obtain ⟨registry, scope, place, name, fits, ancestors⟩ := stacked index other old
        refine ⟨registry, scope, place, name, Layer.Matches.mono fits steps, ?_⟩
        rw [List.take_append_of_le_length (Nat.le_of_lt inside)]
        exact ancestors
      · refine ⟨registry, scope, here, name, fits, ?_⟩
        rw [List.take_left]
        exact ancestors
    refine (ih (before ++ [(registry, scope)]) (by rw [split, List.append_assoc]; rfl)
      (by simp [length])
      (middle.1.report (.poolCompiled scope.name pool.layer.entries.length), middle.2)
      grown).mono ?_ (fun _ _ fails => fails.of_steps further)
      (fun _ breaks => breaks.of_steps further)
    intro pools last yielded
    obtain ⟨onward, whole, all⟩ := yielded
    exact ⟨further.trans onward, whole, all⟩

end Blueprint

/-- The application of an assembly is compiled step by step. -/
theorem Assembly.compile_yields {assembly : Assembly} {resolution : Resolution}
    {rank : Nat → Nat} (ranked : (assembly.blueprint resolution).Ranked rank)
    (applications : List Application)
    (inside : ∀ registry ∈ resolution.registries,
      registry.Inside (assembly.blueprint resolution))
    (outside : resolution.exports.Inside (assembly.blueprint resolution))
    (state : Memory × Compiled) :
    (assembly.compile applications resolution).Yields state
      (fun application after =>
        (assembly.blueprint resolution).Steps applications state after ∧
        application.pools.length = (resolution.registries.zip assembly.scopes).length ∧
        Stacked (resolution.registries.zip assembly.scopes) after.2 application.pools ∧
        application.exports.layer.Matches resolution.exports after.2 ∧
        application.exports.ancestors = [])
      (fun error after => (assembly.blueprint resolution).Fails applications state error after)
      (fun after => (assembly.blueprint resolution).Breaks applications state after) := by
  simp only [Assembly.compile, Attempt.yields_bind]
  refine (Blueprint.pools_yields ranked applications [] rfl ?_ rfl state ?_).mono ?_
    (fun _ _ kept => kept) (fun _ kept => kept)
  · intro pair member
    exact inside pair.1 (List.of_mem_zip member).1
  · intro index pool found
    simp at found
  · intro pools middle yielded
    obtain ⟨steps, length, stacked⟩ := yielded
    refine (Blueprint.pool_yields ranked applications _ none outside middle).mono ?_
      (fun _ _ fails => fails.of_steps steps) (fun _ breaks => breaks.of_steps steps)
    intro exports after yielded
    obtain ⟨onward, -, fits, ancestors⟩ := yielded
    refine ⟨steps.trans onward, length, ?_, fits, ancestors⟩
    intro index pool found
    obtain ⟨registry, scope, place, name, matched, above⟩ := stacked index pool found
    exact ⟨registry, scope, place, name, Layer.Matches.mono matched onward, above⟩

end Wiring
