import Wiring.Proofs.Disciplines

/-!
Readings latch. No reading touches a cell that is not empty, but for the invocation that fills it:
so a cell is still computing at the end of its invocation, whatever that causes, and every reading
of a lazy accessor goes by what its cell has come to. The induction is on the dependencies of
accessors, and for the questions of factories on their depth.
-/

namespace Wiring

namespace Accessor

/-- A dependency is a smaller accessor. -/
theorem sizeOf_dependency {accessor : Accessor} {dependency : Key × Accessor}
    (member : dependency ∈ accessor.dependencies) : sizeOf dependency.2 < sizeOf accessor := by
  have smaller : sizeOf dependency.2 < sizeOf dependency := by
    cases dependency
    simp only [Prod.mk.sizeOf_spec]
    omega
  cases accessor with
  | constant id handle => cases member
  | lazy id producer dependencies =>
    have within := List.sizeOf_lt_of_mem (show dependency ∈ dependencies from member)
    simp only [lazy.sizeOf_spec]
    omega
  | prototype id producer dependencies =>
    have within := List.sizeOf_lt_of_mem (show dependency ∈ dependencies from member)
    simp only [prototype.sizeOf_spec]
    omega

/-- What holds of an accessor when it holds of its dependencies holds of all accessors. -/
theorem induction_on_dependencies {motive : Accessor → Prop}
    (step : ∀ accessor, (∀ dependency ∈ accessor.dependencies, motive dependency.2) →
      motive accessor) (accessor : Accessor) : motive accessor :=
  step accessor fun dependency member =>
    have := sizeOf_dependency member
    induction_on_dependencies step dependency.2
termination_by sizeOf accessor

end Accessor

namespace Discipline

/-- Readings take back no accessor, change no cell that is not empty, and leave tied pieces tied. -/
def latching : Discipline where
  holds _ := True
  leads before after := before.Grows after ∧ before.Latches after
  breaks := True
  refl memory := ⟨.refl memory, .refl memory⟩
  trans first second := ⟨first.1.trans second.1, first.2.trans second.2⟩
  like like _ := ⟨trivial, like.grows, .of_lazies like.lazies⟩

variable {surroundings : Surroundings} {key : Key}
  {dependencies : List (Key × Accessor)}

theorem latching_record (memory : Memory) (moment : Moment) :
    latching.Passes memory (memory.record moment) :=
  ⟨trivial, Nat.le_refl _, .of_lazies rfl⟩

theorem latching_permits (producer : Producer) (gives : Key × Accessor → Instance → Prop)
    (dependencies : List (Key × Accessor)) :
    latching.Permits producer gives dependencies where
  begun memory _ := latching_record memory _
  called memory _ _ _ := latching_record memory _
  ended memory _ := latching_record memory _

/-- A cell is filled only when it is empty. -/
theorem latching_recalling (id : AccessorId) {invocation : Evaluation Instance}
    (invoked : latching.Respected invocation fun handle => handle.type = key.type) :
    latching.Respected (recalling id key invocation) fun _ => True := by
  intro before _
  have same : latching.Passes before before := ⟨trivial, latching.refl before⟩
  apply recalling_yields (fun _ _ => ⟨same, trivial⟩) (fun _ _ => same)
  intro empty
  have stored {after : Memory} (passes : latching.Passes (before.store id .computing) after)
      (cell : Cell) : latching.Passes before (after.store id cell) :=
    ⟨trivial, passes.2.1, passes.2.2.store empty⟩
  have reported {after : Memory} (event : Event)
      (passes : latching.Passes (before.store id .computing) after) :
      latching.Passes (before.store id .computing) (after.report event) :=
    passes.trans (latching.like (after.like_report event) trivial)
  refine settling_yields ((invoked _ trivial).mono ?_ ?_ ?_)
  · intro handle after yielded
    exact ⟨stored (reported _ yielded.1) _, trivial⟩
  · intro error after passes
    exact stored (reported _ passes) _
  · intro after broken
    obtain ⟨-, passes⟩ := broken
    have computing : latching.Passes before (before.store id .computing) :=
      ⟨trivial, Nat.le_refl _, Memory.latches_store empty _⟩
    exact ⟨⟨trivial, stored passes _⟩, trivial, computing.trans passes⟩

/-- An invocation latches all cells when its dependencies do. -/
theorem Surrounded.latching_invoke (latches : latching.Surrounded surroundings)
    (producer : Producer) (below : ∀ dependency ∈ dependencies,
      latching.Respected (dependency.2.read surroundings) fun _ => True) :
    latching.Respected (producer.invoke surroundings dependencies) fun handle =>
      handle.type = producer.key.type :=
  (latching_permits producer (fun _ _ => True) dependencies).respected_invoke latches trivial below

/-- Every reading of any accessor latches all cells. -/
theorem Surrounded.latching_read (latches : latching.Surrounded surroundings)
    (accessor : Accessor) : latching.Respected (accessor.read surroundings) fun _ => True := by
  induction accessor using Accessor.induction_on_dependencies with
  | step accessor below =>
    cases accessor with
    | constant id handle => exact respected_done trivial
    | lazy id producer dependencies =>
      have invoked : latching.Respected (producer.invoke surroundings dependencies) fun handle =>
          handle.type = producer.key.type := latches.latching_invoke producer below
      rw [Accessor.read_lazy, recollect_eq_recalling fun memory => (invoked.passes trivial).2.2]
      exact latching_recalling id invoked
    | prototype id producer dependencies =>
      exact (latches.latching_invoke producer below).mono fun _ _ => trivial

/-- A reading of a lazy accessor goes by what its cell has come to. -/
theorem Surrounded.read_lazy (latches : latching.Surrounded surroundings) (id : AccessorId)
    (producer : Producer) (dependencies : List (Key × Accessor)) :
    (Accessor.lazy id producer dependencies).read surroundings =
      recalling id producer.key (producer.invoke surroundings dependencies) := by
  have invoked := latches.latching_invoke producer fun dependency (_ : dependency ∈ dependencies) =>
    latches.latching_read dependency.2
  rw [Accessor.read_lazy, recollect_eq_recalling fun memory => (invoked.passes trivial).2.2]

end Discipline

end Wiring
