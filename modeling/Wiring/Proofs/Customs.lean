import Wiring.Proofs.Observances

/-!
Customs: what a memory may hold of the accessors of a kind. A custom binds some accessors and says
what their cells may hold. It is enough that a reading of a bound accessor keeps the custom where
everything behind the accessor keeps it: then whatever a host does, and whatever its other
factories do, its memory keeps the custom. Only a reading of the accessor itself fills its cell.
-/

namespace Wiring

open Relation

/-- Some accessors, and what their cells may hold. -/
structure Custom where
  binds : Accessor → Prop
  allows : Accessor → Cell → Prop

namespace Custom

/-- The memory holds of the accessor what it may hold. -/
def Observed (custom : Custom) (memory : Memory) (accessor : Accessor) : Prop :=
  custom.allows accessor (memory.cells accessor.id)

/-- The memory holds of the accessor, and of all that it depends on, what it may hold. -/
def Steady (custom : Custom) (memory : Memory) (accessor : Accessor) : Prop :=
  ∀ inner, accessor.Within inner → custom.Observed memory inner

/-- Of bound accessors the second memory holds what it may hold where the first one does. -/
def Keeps (custom : Custom) (known : Accessor → Prop) (before after : Memory) : Prop :=
  ∀ accessor, known accessor → custom.binds accessor → custom.Observed before accessor →
    custom.Observed after accessor

/-- A custom binds accessors with their dependencies, and each reading of a bound accessor keeps
it. The custom says whether such a reading may be broken off. -/
structure Lawful (custom : Custom) (breaks : Prop) : Prop where
  dependency : ∀ accessor, custom.binds accessor → ∀ dependency ∈ accessor.dependencies,
    custom.binds dependency.2
  empty : ∀ accessor, custom.allows accessor .empty
  reads : ∀ {known : Accessor → Prop}, Family known → ∀ {accessor : Accessor}, known accessor →
    custom.binds accessor → ∀ surroundings, Discipline.latching.Surrounded surroundings →
      ∀ before, custom.Steady before accessor →
      (accessor.read surroundings).Yields before (fun _ after => custom.Keeps known before after)
        (fun _ after => custom.Keeps known before after)
        fun after => breaks ∧ custom.Keeps known before after

variable {custom : Custom} {known : Accessor → Prop} {before middle after : Memory}

theorem Keeps.trans (keeps : custom.Keeps known before middle)
    (onward : custom.Keeps known middle after) : custom.Keeps known before after :=
  fun accessor member binds observed => onward accessor member binds
    (keeps accessor member binds observed)

theorem keeps_of_cells (same : after.cells = before.cells) : custom.Keeps known before after := by
  intro accessor _ _ observed
  unfold Observed
  rw [same]
  exact observed

/-- All that is within a bound accessor is bound. -/
theorem Lawful.binds_within {breaks : Prop} (lawful : custom.Lawful breaks)
    {outer inner : Accessor} (within : outer.Within inner) (binds : custom.binds outer) :
    custom.binds inner :=
  within.of_closed lawful.dependency binds

/-- What was steady stays so. -/
theorem Keeps.steady (keeps : custom.Keeps known before after) (family : Family known)
    {accessor : Accessor} (member : known accessor)
    (binds : ∀ inner, accessor.Within inner → custom.binds inner)
    (steady : custom.Steady before accessor) : custom.Steady after accessor :=
  fun inner within => keeps inner (within.of_closed family.dependencies member)
    (binds inner within) (steady inner within)

/-- An accessor whose cell comes to hold what it may hold keeps the custom, when nothing else was
disturbed meanwhile. -/
theorem keeps_store (family : Family known) {accessor : Accessor} (member : known accessor)
    {cell : Cell} (allowed : custom.allows accessor cell)
    (keeps : custom.Keeps known (before.store accessor.id .computing) after) :
    custom.Keeps known before (after.store accessor.id cell) := by
  intro other among binds observed
  unfold Observed at *
  by_cases same : other.id = accessor.id
  · obtain rfl := family.unique other accessor among member same
    rw [Memory.store_cells_self]
    exact allowed
  · rw [Memory.store_cells_of_ne _ _ same]
    apply keeps other among binds
    unfold Observed
    rw [Memory.store_cells_of_ne _ _ same]
    exact observed

/-- What the cell of one accessor holds does not disturb its dependencies. -/
theorem steady_store (family : Family known) {accessor : Accessor} (member : known accessor)
    (steady : custom.Steady before accessor) {dependency : Key × Accessor}
    (among : dependency ∈ accessor.dependencies) (cell : Cell) :
    custom.Steady (before.store accessor.id cell) dependency.2 := by
  intro inner within
  -- A dependency is smaller than the accessor, so it is another one.
  have smaller : sizeOf inner < sizeOf accessor :=
    within.sizeOf_le.trans_lt (Accessor.sizeOf_dependency among)
  have different : inner.id ≠ accessor.id := by
    intro same
    have inside := within.of_closed family.dependencies
      (family.dependencies _ member dependency among)
    obtain rfl := family.unique inner _ inside member same
    exact absurd smaller (Nat.lt_irrefl _)
  unfold Observed
  rw [Memory.store_cells_of_ne _ _ different]
  exact steady inner ((Accessor.Within.deeper .self among).trans within)

end Custom

namespace Discipline

/-- The memory holds of the bound accessors of a family what it may hold. -/
def customary (custom : Custom) (known : Accessor → Prop) (breaks : Prop) : Discipline where
  holds memory := ∀ accessor, known accessor → custom.binds accessor →
    custom.Observed memory accessor
  leads _ _ := True
  breaks := breaks
  refl _ := trivial
  trans _ _ := trivial
  like like holds := by
    refine ⟨fun accessor member binds => ?_, trivial⟩
    unfold Custom.Observed
    rw [like.cells]
    exact holds accessor member binds

variable {custom : Custom} {known : Accessor → Prop} {breaks : Prop}

/-- Where the memory keeps a custom, all that a bound accessor depends on is steady. -/
theorem steady_of_customary (lawful : custom.Lawful breaks) (family : Family known)
    {accessor : Accessor} (member : known accessor) (binds : custom.binds accessor)
    {memory : Memory} (holds : (customary custom known breaks).holds memory) :
    custom.Steady memory accessor :=
  fun inner within => holds inner (within.of_closed family.dependencies member)
    (lawful.binds_within within binds)

theorem customary_of_keeps {before after : Memory}
    (holds : (customary custom known breaks).holds before)
    (keeps : custom.Keeps known before after) :
    (customary custom known breaks).Passes before after :=
  ⟨fun accessor member binds => keeps accessor member binds (holds accessor member binds), trivial⟩

/-- A reading of a bound accessor is broken off only where the custom says so. -/
theorem respected_bound_read (lawful : custom.Lawful breaks) (family : Family known)
    {accessor : Accessor} (member : known accessor) (binds : custom.binds accessor)
    {surroundings : Surroundings} (latches : latching.Surrounded surroundings) :
    (customary custom known breaks).Respected (accessor.read surroundings) fun _ => True := by
  intro before holds
  have reads := lawful.reads family member binds _ latches before
    (steady_of_customary lawful family member binds holds)
  exact reads.mono (fun _ _ keeps => ⟨customary_of_keeps holds keeps, trivial⟩)
    (fun _ _ keeps => customary_of_keeps holds keeps)
    fun _ broken => ⟨broken.1, customary_of_keeps holds broken.2⟩

theorem customary_permits (producer : Producer) (gives : Key × Accessor → Instance → Prop)
    (dependencies : List (Key × Accessor)) :
    (customary custom known breaks).Permits producer gives dependencies where
  begun _ holds := customary_of_keeps holds (Custom.keeps_of_cells rfl)
  called _ _ _ holds := customary_of_keeps holds (Custom.keeps_of_cells rfl)
  ended _ holds := customary_of_keeps holds (Custom.keeps_of_cells rfl)

/-- Every reading keeps a lawful custom: that of a bound accessor by itself, and that of another one
because it fills other cells. -/
theorem customary_governs (lawful : custom.Lawful True) (family : Family known) :
    (customary custom known True).Governs known fun _ _ => True := by
  intro accessor member surroundings latches surrounded below
  by_cases binds : custom.binds accessor
  · exact respected_bound_read lawful family member binds latches
  · refine surrounded.respected_read latches trivial (fun _ _ => True) below
      (fun _ _ => customary_permits _ _ _) ⟨fun _ _ _ _ => trivial, ?_⟩ fun _ _ => trivial
    intro memory cell holds _ _
    refine ⟨fun other among other_binds => ?_, trivial⟩
    have different : other.id ≠ accessor.id := by
      intro same
      obtain rfl := family.unique other accessor among member same
      exact binds other_binds
    unfold Custom.Observed
    rw [Memory.store_cells_of_ne _ _ different]
    exact holds other among other_binds

end Discipline

/-- A custom as an observance. The cell of an accessor that is new is empty. -/
def Custom.observance (custom : Custom) (empty : ∀ accessor, custom.allows accessor .empty) :
    Observance where
  asks known := Discipline.customary custom known True
  breaks _ := trivial
  permits _ := Discipline.customary_permits
  fewer within holds accessor member := holds accessor (within accessor member)
  joins among bare holds accessor member binds := by
    rcases among accessor member with old | rfl
    · exact holds accessor old binds
    · unfold Custom.Observed
      exact bare.symm ▸ empty accessor
  bare _ _ none := none.elim

/-- A lawful custom prevails everywhere. -/
theorem Custom.Lawful.prevails {custom : Custom} (lawful : custom.Lawful True)
    (applications : List Application) : (custom.observance lawful.empty).Prevails applications :=
  fun _ family closed => (Discipline.customary_governs lawful family).pervades trivial closed

/-- All steps of a compilation keep a lawful custom. -/
theorem Blueprint.Steps.customary {blueprint : Blueprint} {assembly : Assembly}
    {applications : List Application} {spent : Nat → Prop} {base : Accessor → Prop}
    {state after : Memory × Compiled} (steps : blueprint.Steps applications state after)
    {custom : Custom} (lawful : custom.Lawful True)
    (grounded : blueprint.Grounded assembly applications spent base)
    (progress : blueprint.Progress spent base state)
    (holds : (Discipline.customary custom (state.2.Gathers base) True).holds state.1) :
    (Discipline.customary custom (after.2.Gathers base) True).holds after.1 :=
  steps.heeds (lawful.prevails applications) grounded progress holds

namespace Host

variable {custom : Custom} {host : Host} {assembly : Assembly}

/-- The memory of the host keeps the custom for all accessors that the host knows. -/
def Observes (host : Host) (custom : Custom) : Prop :=
  (Discipline.customary custom host.Knows True).holds host.memory

/-- A host keeps a custom as it heeds the observance of it. -/
theorem Observes.heeds (observes : host.Observes custom) (lawful : custom.Lawful True) :
    host.Heeds (custom.observance lawful.empty) := observes

/-- The custom is kept throughout the compilation of an assembly. -/
theorem Observes.steps (observes : host.Observes custom) (lawful : custom.Lawful True)
    (sound : host.Sound) (current : host.assembly = some assembly)
    (accepted : assembly.survey.accepted = true) {state : Memory × Compiled}
    (steps : (assembly.blueprint assembly.survey).Steps host.applications
      (assembly.announced host.memory, Compiled.empty) state) :
    (Discipline.customary custom (state.2.Gathers host.Knows) True).holds state.1 :=
  (observes.heeds lawful).steps (lawful.prevails _) sound current accepted steps

/-- Bundles that finish in a compiled application keep the custom. -/
theorem Observes.finished (observes : host.Observes custom) (lawful : custom.Lawful True)
    (sound : host.Sound) (current : host.assembly = some assembly) {application : Application}
    {state : Memory × Compiled}
    (compiles : assembly.Compiles host.applications host.memory application state)
    (installations : List Installation) :
    (Discipline.customary custom (state.2.Gathers host.Knows) True).holds
      (finishEach host.applications application installations state.1).2 :=
  (observes.heeds lawful).finished (lawful.prevails _) sound current compiles (lawful.prevails _)
    installations

/-- Every reachable host keeps every lawful custom. -/
theorem Reachable.observes (reachable : host.Reachable) (lawful : custom.Lawful True) :
    host.Observes custom :=
  reachable.heeds lawful.prevails

end Host

end Wiring
