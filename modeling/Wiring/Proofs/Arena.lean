import Wiring.Proofs.Questions
import Wiring.Proofs.Stacking

/-!
The accessors of all built pools in one memory. They have numbers of their own, and every value has
the type of its key: the instance of a constant, what a lazy accessor remembers, and what a factory
receives. Readings and compilations keep this.
-/

namespace Wiring

/-- What holds of a memory and a family of accessors in it. The factories that are at work or were
called belong to assemblies that are spent. -/
structure Arena (spent : Nat → Prop) (known : Accessor → Prop) (memory : Memory) : Prop where
  numbered : ∀ accessor, known accessor → accessor.id.number < memory.accessors
  unique : ∀ left right, known left → known right → left.id = right.id → left = right
  linked : ∀ accessor, known accessor → ∀ dependency ∈ accessor.dependencies,
    dependency.2.type = dependency.1.type
  made : ∀ accessor, known accessor → ∀ producer, accessor.producer? = some producer →
    spent producer.factory.assembly
  ready : ∀ accessor, known accessor → ∀ handle, memory.cells accessor.id = .ready handle →
    handle.type = accessor.type
  untouched : ∀ id : AccessorId, memory.accessors ≤ id.number → memory.cells id = .empty
  handed : ∀ factory values, Moment.called factory values ∈ memory.history →
    spent factory.assembly ∧ ∀ pair ∈ values, pair.2.type = pair.1.type

namespace Arena

variable {spent : Nat → Prop} {known : Accessor → Prop} {memory after : Memory}

/-- Fewer accessors and more spent assemblies. -/
theorem mono {spent' : Nat → Prop} {known' : Accessor → Prop} (arena : Arena spent known memory)
    (fewer : ∀ accessor, known' accessor → known accessor)
    (more : ∀ number, spent number → spent' number) : Arena spent' known' memory where
  numbered accessor member := arena.numbered accessor (fewer accessor member)
  unique left right one two := arena.unique left right (fewer left one) (fewer right two)
  linked accessor member := arena.linked accessor (fewer accessor member)
  made accessor member producer makes :=
    more _ (arena.made accessor (fewer accessor member) producer makes)
  ready accessor member := arena.ready accessor (fewer accessor member)
  untouched := arena.untouched
  handed factory values called :=
    ⟨more _ (arena.handed factory values called).1, (arena.handed factory values called).2⟩

theorem like (arena : Arena spent known memory) (like : memory.Like after) :
    Arena spent known after where
  numbered := by rw [like.accessors]; exact arena.numbered
  unique := arena.unique
  linked := arena.linked
  made := arena.made
  ready := by rw [like.cells]; exact arena.ready
  untouched := by rw [like.accessors, like.cells]; exact arena.untouched
  handed := by rw [like.history]; exact arena.handed

/-- A moment keeps the arena when it hands over values of the right types. -/
theorem record (arena : Arena spent known memory) (moment : Moment)
    (fits : ∀ factory values, moment = .called factory values →
      spent factory.assembly ∧ ∀ pair ∈ values, pair.2.type = pair.1.type) :
    Arena spent known (memory.record moment) where
  numbered := arena.numbered
  unique := arena.unique
  linked := arena.linked
  made := arena.made
  ready := arena.ready
  untouched := arena.untouched
  handed factory values called := by
    rcases List.mem_append.mp called with old | new
    · exact arena.handed factory values old
    · exact fits factory values (List.mem_singleton.mp new).symm

/-- What an accessor remembers keeps the arena when it has the right type. -/
theorem store (arena : Arena spent known memory) {accessor : Accessor} (member : known accessor)
    (cell : Cell) (fits : ∀ handle, cell = .ready handle → handle.type = accessor.type) :
    Arena spent known (memory.store accessor.id cell) where
  numbered := arena.numbered
  unique := arena.unique
  linked := arena.linked
  made := arena.made
  ready other among handle remembered := by
    by_cases same : other.id = accessor.id
    · obtain rfl := arena.unique other accessor among member same
      rw [Memory.store_cells_self] at remembered
      exact fits handle remembered
    · rw [Memory.store_cells_of_ne _ _ same] at remembered
      exact arena.ready other among handle remembered
  untouched id beyond := by
    have different : id ≠ accessor.id := by
      rintro rfl
      exact absurd (arena.numbered accessor member) (Nat.not_lt.mpr beyond)
    rw [Memory.store_cells_of_ne _ _ different]
    exact arena.untouched id beyond
  handed := arena.handed

/-- A new accessor takes the next number. -/
theorem add (arena : Arena spent known memory) {accessor : Accessor}
    (number : accessor.id = ⟨memory.accessors⟩)
    (linked : ∀ dependency ∈ accessor.dependencies, dependency.2.type = dependency.1.type)
    (made : ∀ producer, accessor.producer? = some producer → spent producer.factory.assembly) :
    Arena spent (fun other => known other ∨ other = accessor) memory.countAccessor where
  numbered other among := by
    rcases among with member | rfl
    · exact Nat.lt_succ_of_lt (arena.numbered other member)
    · rw [number]
      exact Nat.lt_succ_self _
  unique left right one two same := by
    rcases one with one | rfl
    · rcases two with two | rfl
      · exact arena.unique left right one two same
      · have low := arena.numbered left one
        rw [same, number] at low
        exact absurd low (Nat.lt_irrefl _)
    · rcases two with two | rfl
      · have low := arena.numbered right two
        rw [← same, number] at low
        exact absurd low (Nat.lt_irrefl _)
      · rfl
  linked other among := by
    rcases among with member | rfl
    · exact arena.linked other member
    · exact linked
  made other among := by
    rcases among with member | rfl
    · exact arena.made other member
    · exact made
  ready other among handle remembered := by
    rcases among with member | rfl
    · exact arena.ready other member handle remembered
    · have empty := arena.untouched other.id (by rw [number])
      change memory.cells other.id = .ready handle at remembered
      rw [empty] at remembered
      cases remembered
  untouched id beyond := arena.untouched id (Nat.le_of_succ_le beyond)
  handed := arena.handed

end Arena

/-- Readings keep the arena and make no accessors. -/
def Discipline.arena (spent : Nat → Prop) (known : Accessor → Prop) : Discipline where
  holds := Arena spent known
  leads before after := after.accessors = before.accessors
  breaks := True
  refl _ := rfl
  trans first second := second.trans first
  like like arena := ⟨arena.like like, like.accessors⟩

/-- The value has the type of the accessor. -/
def Accessor.Makes (accessor : Accessor) (handle : Instance) : Prop :=
  handle.type = accessor.type

namespace Arena

variable {spent : Nat → Prop}

/-- A producer may be invoked when its dependencies have the types of their keys. -/
theorem permits (known : Accessor → Prop) {producer : Producer}
    {dependencies : List (Key × Accessor)}
    (fresh : spent producer.factory.assembly)
    (linked : ∀ dependency ∈ dependencies, dependency.2.type = dependency.1.type) :
    (Discipline.arena spent known).Permits producer (fun dependency => dependency.2.Makes)
      dependencies where
  begun memory arena := ⟨arena.record _ nofun, rfl⟩
  called memory values handed arena := by
    refine ⟨arena.record _ ?_, rfl⟩
    intro _ _ same
    cases same
    refine ⟨fresh, ?_⟩
    clear arena
    induction handed with
    | nil => exact fun _ member => nomatch member
    | cons fits _ ih =>
      obtain ⟨key, makes⟩ := fits
      intro pair member
      rcases List.mem_cons.mp member with rfl | among
      · rw [key, ← linked _ List.mem_cons_self]
        exact makes
      · exact ih (fun dependency member => linked dependency (List.mem_cons_of_mem _ member)) pair
          among
  ended memory arena := ⟨arena.record _ nofun, rfl⟩

/-- Reading any accessor of the family keeps the arena, and gives a value of its type. -/
theorem governs (spent : Nat → Prop) (known : Accessor → Prop) :
    (Discipline.arena spent known).Governs known Accessor.Makes := by
  intro accessor member surroundings latches surrounded below before arena
  have permitted (producer : Producer) (makes : accessor.producer? = some producer) :=
    permits known (arena.made accessor member producer makes) (arena.linked accessor member)
  have remembers : (Discipline.arena spent known).Remembers accessor.id accessor.type
      accessor.Makes :=
    ⟨fun memory handle arena remembered => arena.ready _ member handle remembered,
      fun memory cell arena _ fits => ⟨arena.store member cell fits, rfl⟩⟩
  exact surrounded.respected_read latches trivial Accessor.Makes below permitted remembers
    (fun _ right => right) before arena

end Arena

end Wiring
