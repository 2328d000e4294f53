import Wiring.Proofs.Builds

/-!
The descriptions that a compilation leaves. Each entry of a layer has the description of the entry
that was registered: its own, or that of its producer.
-/

namespace Wiring

/-- Each entry of the layer has the description of the entry that was registered. -/
def Layer.Describes (layer : Layer) (blueprint : Blueprint) (registry : Registry) : Prop :=
  List.Forall₂ (fun pair item => item.2.description = blueprint.description pair.2)
    registry.registrations layer.entries

/-- The pools of the application have the descriptions of the resolution of the assembly. -/
structure Assembly.Describes (assembly : Assembly) (application : Application) : Prop where
  scopes : List.Forall₂ (fun pair pool =>
      Layer.Describes pool.layer (assembly.blueprint assembly.survey) pair.1)
    (assembly.survey.registries.zip assembly.scopes) application.pools
  exports : application.exports.layer.Describes (assembly.blueprint assembly.survey)
    assembly.survey.exports

namespace Blueprint

theorem gives_pool (blueprint : Blueprint) (applications : List Application) (name : String)
    (parent : Option Pool) (registry : Registry) :
    (blueprint.pool applications name parent registry).Gives
      fun pool => pool.layer.Describes blueprint registry := by
  have each (pair : Key × EntryId) : Attempt.Gives
      ((blueprint.runtimeEntry applications pair.1 pair.2).andThen
        fun compiled => Attempt.done (pair.1, compiled))
      fun item => item.2.description = blueprint.description pair.2 := by
    have described : (blueprint.runtimeEntry applications pair.1 pair.2).Gives
        fun entry => entry.description = blueprint.description pair.2 :=
      (Attempt.gives_of_forall _ fun _ => trivial).bind fun _ _ => Attempt.gives_pure rfl
    exact described.bind fun _ same => Attempt.gives_pure same
  exact (Attempt.gives_forEach each registry.registrations).bind fun _ all =>
    Attempt.gives_pure all

theorem gives_pools (blueprint : Blueprint) (applications : List Application)
    (scopes : List (Registry × Scope)) (done : List Pool) :
    (blueprint.pools applications scopes done).Gives fun pools => ∃ more, pools = done ++ more ∧
      List.Forall₂ (fun pair pool => Layer.Describes pool.layer blueprint pair.1) scopes more := by
  induction scopes generalizing done with
  | nil => exact Attempt.gives_pure ⟨[], (List.append_nil done).symm, .nil⟩
  | cons pair rest ih =>
    obtain ⟨registry, scope⟩ := pair
    simp only [pools]
    apply (blueprint.gives_pool applications scope.name _ registry).bind
    intro pool describes
    apply (Attempt.gives_of_forall _ fun _ => trivial).bind
    intro _ _ state
    refine (ih (done ++ [pool]) state).mono ?_ (fun _ _ kept => kept) fun _ kept => kept
    rintro pools _ ⟨more, rfl, all⟩
    exact ⟨pool :: more, by simp, .cons describes all⟩

end Blueprint

namespace Assembly

theorem gives_compile (assembly : Assembly) (applications : List Application) :
    (assembly.compile applications assembly.survey).Gives assembly.Describes := by
  apply (Blueprint.gives_pools _ applications _ []).bind
  rintro pools ⟨more, rfl, scopes⟩
  apply (Blueprint.gives_pool _ applications _ none _).bind
  intro exports describes
  exact Attempt.gives_pure ⟨scopes, describes⟩

/-- An application that is built has the descriptions of the resolution. -/
theorem gives_build (assembly : Assembly) (applications : List Application) :
    (assembly.build applications).Gives assembly.Describes := by
  apply (Attempt.gives_of_forall _ fun _ => trivial).bind
  intro _ _
  apply (Attempt.gives_of_forall _ fun _ => trivial).bind
  intro _ _
  dsimp only
  split
  · refine Attempt.Gives.bind (?compiled : Attempt.Gives _ assembly.Describes) ?_
    case compiled =>
      intro memory
      have gives := assembly.gives_compile applications (memory, Compiled.empty)
      unfold Attempt.Yields at gives ⊢
      dsimp only
      rcases result : assembly.compile applications assembly.survey (memory, Compiled.empty) with
        ⟨ending, state⟩
      rw [result] at gives
      cases ending <;> exact gives
    intro application describes memory
    refine Attempt.Yields.mono (finish_yields assembly applications application memory) ?_
      (fun _ _ _ => trivial) fun _ _ => trivial
    rintro _ _ ⟨halt, rfl, -⟩
    exact ⟨describes.scopes, describes.exports⟩
  · exact fun _ => trivial

end Assembly

end Wiring
