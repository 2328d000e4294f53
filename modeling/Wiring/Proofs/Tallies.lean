import Wiring.Proofs.Wards

/-!
Tallies: how often a factory was called. A factory that no accessor works for is not called any
more. A factory that only one lazy accessor works for is called at most once, because that accessor
remembers whatever comes of its first reading.
-/

namespace Wiring

/-- The only accessor that works for a factory, if there is one, has been read. -/
def Memory.Latched (memory : Memory) (owner : Option Accessor) : Prop :=
  ∀ accessor, owner = some accessor → memory.cells accessor.id ≠ .empty

/-- The factory was called at most once, and not before its owner was read; once the owner was
read it is not called any more. -/
def Discipline.tally (factory : FactoryId) (owner : Option Accessor) : Discipline where
  holds memory := memory.calls factory ≤ 1 ∧ (¬ memory.Latched owner → memory.calls factory = 0)
  leads before after := before.accessors ≤ after.accessors ∧
    (before.Latched owner → after.Latched owner ∧ after.calls factory = before.calls factory)
  breaks := True
  refl _ := ⟨Nat.le_refl _, fun latched => ⟨latched, rfl⟩⟩
  trans first second := by
    refine ⟨first.1.trans second.1, fun latched => ?_⟩
    obtain ⟨middle, same⟩ := first.2 latched
    obtain ⟨last, still⟩ := second.2 middle
    exact ⟨last, still.trans same⟩
  like like holds := by
    unfold Memory.Latched Memory.calls at *
    rw [like.cells, like.history, like.accessors]
    exact ⟨holds, Nat.le_refl _, fun latched => ⟨latched, rfl⟩⟩

/-- Only the owner works for the factory. -/
def Accessor.Spares (factory : FactoryId) (owner : Option Accessor) (accessor : Accessor) : Prop :=
  ∀ producer, accessor.producer? = some producer → producer.factory = factory →
    owner = some accessor

namespace Discipline

variable {factory : FactoryId} {owner : Option Accessor} {before after : Memory}

/-- A moment that is no call of the factory does not count. -/
theorem tally_record (holds : (tally factory owner).holds before) (moment : Moment)
    (other : moment.isCallOf factory = false) :
    (tally factory owner).Passes before (before.record moment) := by
  have same : (before.record moment).calls factory = before.calls factory := by
    simp [Memory.calls_record, other]
  refine ⟨?_, Nat.le_refl _, fun latched => ⟨latched, same⟩⟩
  change _ ≤ 1 ∧ _
  rw [same]
  exact holds

/-- To remember something only latches. -/
theorem tally_store (holds : (tally factory owner).holds before) (id : AccessorId) {cell : Cell}
    (filled : cell ≠ .empty) :
    (tally factory owner).Passes before (before.store id cell) := by
  have stays (latched : before.Latched owner) : (before.store id cell).Latched owner := by
    intro accessor owns
    by_cases same : accessor.id = id
    · rw [same, Memory.store_cells_self]
      exact filled
    · rw [Memory.store_cells_of_ne _ _ same]
      exact latched accessor owns
  exact ⟨⟨holds.1, fun opened => holds.2 fun latched => opened (stays latched)⟩, Nat.le_refl _,
    fun latched => ⟨stays latched, rfl⟩⟩

/-- Another factory may be invoked at any time. -/
theorem tally_permits {producer : Producer} (other : producer.factory ≠ factory)
    (gives : Key × Accessor → Instance → Prop) (dependencies : List (Key × Accessor)) :
    (tally factory owner).Permits producer gives dependencies where
  begun _ holds := tally_record holds _ rfl
  called _ _ _ holds := tally_record holds _ (by simp [Moment.isCallOf, other])
  ended _ holds := tally_record holds _ rfl

variable {surroundings : Surroundings} {producer : Producer} {dependencies : List (Key × Accessor)}

/-- An invocation of the factory itself calls it once, and only when all dependencies can be read.
It starts when the factory was not called before and its owner, if there is one, is latched. -/
theorem tally_invoke (surrounded : (tally factory owner).Surrounded surroundings)
    (each : ∀ dependency ∈ dependencies,
      (tally factory owner).Respected (dependency.2.read surroundings) fun _ => True)
    (own : producer.factory = factory) (latched : before.Latched owner)
    (uncalled : before.calls factory = 0) :
    (producer.invoke surroundings dependencies).Yields before
      (fun _ after => (tally factory owner).holds after ∧ before.accessors ≤ after.accessors ∧
        after.Latched owner ∧ after.calls factory = 1)
      (fun _ after => (tally factory owner).holds after ∧ before.accessors ≤ after.accessors ∧
        after.Latched owner)
      (fun after => (tally factory owner).holds after ∧ before.accessors ≤ after.accessors ∧
        after.Latched owner) := by
  have start : (tally factory owner).holds before := ⟨by omega, fun _ => uncalled⟩
  have begun := tally_record start (.begun producer.factory) rfl
  obtain ⟨opened, zero⟩ := begun.2.2 latched
  have call (middle : Memory) (values : List (Key × Instance)) :
      (middle.record (.called producer.factory values)).calls factory =
        middle.calls factory + 1 := by
    simp [Memory.calls_record, Moment.isCallOf, own]
  have yields := surrounded.invoke_yields trivial each producer before
    (fun after => (tally factory owner).holds after ∧ before.accessors ≤ after.accessors ∧
        after.Latched owner)
    (fun after => (tally factory owner).holds after ∧ before.accessors ≤ after.accessors ∧
        after.Latched owner ∧ after.calls factory = 1) begun.1 ?_ ?_ ?_
  · apply yields.mono (fun _ _ kept => kept.1)
    · intro _ after yielded
      rcases yielded with missed | ⟨holds, grown, still, -⟩
      · exact missed
      · exact ⟨holds, grown, still⟩
    · intro after yielded
      obtain ⟨-, missed | ⟨holds, grown, still, -⟩⟩ := yielded
      · exact missed
      · exact ⟨holds, grown, still⟩
  · intro middle values passes _
    obtain ⟨still, same⟩ := passes.2.2 opened
    refine ⟨?_, fun shut => absurd still shut⟩
    rw [call]
    omega
  · intro middle passes
    obtain ⟨still, same⟩ := passes.2.2 opened
    have ended := tally_record passes.1 (.ended producer.factory) rfl
    exact ⟨ended.1, begun.2.1.trans (passes.2.1.trans ended.2.1), still⟩
  · intro middle values last passes _ further
    obtain ⟨still, same⟩ := passes.2.2 opened
    obtain ⟨shut, once⟩ := further.2.2 still
    have ended := tally_record further.1 (.ended producer.factory) rfl
    refine ⟨ended.1, begun.2.1.trans (passes.2.1.trans (further.2.1.trans ended.2.1)), shut, ?_⟩
    rw [(ended.2.2 shut).2, once, call, same, zero, uncalled]

/-- Only the first reading of the owner calls the factory, and it does so at most once. -/
theorem tally_owner (surrounded : (tally factory owner).Surrounded surroundings)
    (latches : latching.Surrounded surroundings) {id : AccessorId}
    (owns : owner = some (.lazy id producer dependencies)) (own : producer.factory = factory)
    (each : ∀ dependency ∈ dependencies,
      (tally factory owner).Respected (dependency.2.read surroundings) fun _ => True) :
    (tally factory owner).Respected
      (Accessor.read surroundings (.lazy id producer dependencies)) fun _ => True := by
  intro before holds
  have same : (tally factory owner).Passes before before := ⟨holds, (tally factory owner).refl _⟩
  rw [latches.read_lazy]
  apply recalling_yields (fun _ _ => ⟨same, trivial⟩) (fun _ _ => same)
  intro empty
  have unread : ¬ before.Latched owner := fun latched => latched _ owns empty
  have shut : (before.store id .computing).Latched owner := by
    intro accessor owns'
    obtain rfl := Option.some.inj (owns.symm.trans owns')
    rw [Accessor.id, Memory.store_cells_self]
    exact nofun
  -- What the invocation leaves is reported and remembered.
  have settled {after : Memory} (kept : (tally factory owner).holds after ∧
      (before.store id .computing).accessors ≤ after.accessors ∧ after.Latched owner)
      {cell : Cell} (filled : cell ≠ .empty) :
      (tally factory owner).Passes before (after.store id cell) := by
    obtain ⟨holds, grown, -⟩ := kept
    exact ⟨(tally_store holds id filled).1, grown, fun latched => absurd latched unread⟩
  have reported {after : Memory} (event : Event) (kept : (tally factory owner).holds after ∧
      (before.store id .computing).accessors ≤ after.accessors ∧ after.Latched owner) :
      (tally factory owner).holds (after.report event) ∧
      (before.store id .computing).accessors ≤ (after.report event).accessors ∧
      (after.report event).Latched owner := kept
  refine settling_yields ((tally_invoke surrounded each own shut (holds.2 unread)).mono ?_ ?_ ?_)
  · intro handle after yielded
    obtain ⟨held, grown, still, -⟩ := yielded
    exact ⟨settled (reported _ ⟨held, grown, still⟩) nofun, trivial⟩
  · intro error after kept
    exact settled (reported _ kept) nofun
  · intro after kept
    exact ⟨⟨trivial, settled kept nofun⟩, trivial, kept.1, kept.2.1,
      fun latched => absurd latched unread⟩

/-- A factory that only its lazy owner works for is called at most once in every later run. -/
theorem tally_ward (factory : FactoryId) (owner : Option Accessor)
    (lazily : ∀ accessor, owner = some accessor → accessor.mode = .lazy) :
    Ward (tally factory owner) (fun _ _ => True) (Accessor.Spares factory owner)
      (fun producer _ => producer.factory ≠ factory) 0 where
  breaks := trivial
  governs accessor spares surroundings latches surrounded below := by
    by_cases owns : owner = some accessor ∧ ∃ producer, accessor.producer? = some producer ∧
        producer.factory = factory
    · obtain ⟨owns, producer, makes, own⟩ := owns
      have mode := lazily accessor owns
      cases accessor with
      | constant id handle => cases makes
      | prototype id other dependencies => cases mode
      | lazy id other dependencies =>
        obtain rfl := Option.some.inj makes
        exact tally_owner surrounded latches owns own below
    · refine surrounded.respected_read latches trivial (fun _ _ => True) below ?_
        ⟨fun _ _ _ _ => trivial, fun _ _ holds filled _ => tally_store holds _ filled⟩
        fun _ _ => trivial
      intro producer makes
      refine tally_permits (fun own => owns ⟨spares producer makes own, producer, makes, own⟩) _ _
  permits _ _ admitted _ := tally_permits admitted _ _
  joins _ _ _ admitted producer makes own := absurd own (admitted producer makes)
  counts _ holds := ⟨holds, Nat.le_succ _, fun latched => ⟨latched, rfl⟩⟩
  grows _ _ leads := leads.1

/-- A factory that nothing works for is not called in any later run. -/
theorem tally_ward_unowned (factory : FactoryId) :
    Ward (tally factory none) (fun _ _ => True) (Accessor.Spares factory none)
      (fun producer _ => producer.factory ≠ factory) 0 :=
  tally_ward factory none fun _ owns => by cases owns

end Discipline

/-- Only the owner works for the factory, and it keeps its tally. -/
abbrev Ward.Tallies (factory : FactoryId) (owner : Option Accessor) (base : Accessor → Prop)
    (state : Memory × Compiled) : Prop :=
  Covers (.tally factory owner) (Accessor.Spares factory owner) 0 base state

end Wiring
