import Mathlib.Logic.Relation
import Wiring.Proofs.Works

/-!
What is heard of the factories of an assembly while one of them has its dependencies read. Only
those are at work on which it depends and which are not constants, each within the work of one that
depends on it. Whatever else happens is the work of other assemblies.
-/

namespace Wiring

namespace Moment

/-- The factory whose work the moment belongs to. -/
def factory : Moment → FactoryId
  | .begun factory => factory
  | .called factory _ => factory
  | .ended factory => factory

/-- No factory of the assembly is at work. -/
def Apart (number : Nat) (moments : List Moment) : Prop :=
  ∀ moment ∈ moments, moment.factory.assembly ≠ number

theorem ongoing_apart (number : Nat) : Ongoing (Apart number) :=
  ⟨List.forall_mem_nil _, fun first second => List.forall_mem_append.mpr ⟨first, second⟩⟩

/-- What follows on the reading of the dependencies of a factory. It is called, and what it asks for
is made by other assemblies; but if a dependency could not be read nothing follows. -/
inductive Calling (factory : FactoryId) : List Moment → Prop
  | missed : Calling factory []
  | reached (handed : List (Key × Instance)) {caused : List Moment}
      (apart : Apart factory.assembly caused) : Calling factory (.called factory handed :: caused)

/-- What is heard while the dependencies of the factory of an entry are read. Of the factories of
the same assembly only such are at work that it defers to, and these have their own dependencies
read before they are called. -/
inductive Readings (number : Nat) (defers : Nat → Nat → Prop) : Nat → List Moment → Prop
  | nil (index : Nat) : Readings number defers index []
  | apart {index : Nat} {moment : Moment} {rest : List Moment}
      (other : moment.factory.assembly ≠ number) (onward : Readings number defers index rest) :
      Readings number defers index (moment :: rest)
  | work {index next : Nat} {inner call rest : List Moment} (deferred : defers index next)
      (within : Readings number defers next inner) (calling : Calling ⟨number, next⟩ call)
      (onward : Readings number defers index rest) :
      Readings number defers index
        (.begun ⟨number, next⟩ :: (inner ++ (call ++ .ended ⟨number, next⟩ :: rest)))

variable {number index : Nat} {defers : Nat → Nat → Prop} {moments rest : List Moment}

theorem Readings.append (readings : Readings number defers index moments)
    (onward : Readings number defers index rest) :
    Readings number defers index (moments ++ rest) := by
  induction readings with
  | nil => exact onward
  | apart other _ ih => exact .apart other (ih onward)
  | work deferred within calling _ _ ih =>
    simpa only [List.cons_append, List.append_assoc] using
      Readings.work deferred within calling (ih onward)

theorem ongoing_readings (number : Nat) (defers : Nat → Nat → Prop) (index : Nat) :
    Ongoing (Readings number defers index) :=
  ⟨.nil index, .append⟩

theorem Apart.readings (apart : Apart number moments) (defers : Nat → Nat → Prop) (index : Nat) :
    Readings number defers index moments := by
  induction moments with
  | nil => exact .nil index
  | cons moment rest ih =>
    obtain ⟨other, onward⟩ := List.forall_mem_cons.mp apart
    exact .apart other (ih onward)

theorem Calling.factory_eq {factory : FactoryId} (calling : Calling factory moments)
    {moment : Moment} (member : moment ∈ moments)
    (own : moment.factory.assembly = factory.assembly) : moment.factory = factory := by
  cases calling with
  | missed => cases member
  | reached handed apart =>
    rcases List.mem_cons.mp member with rfl | caused
    · rfl
    · exact absurd own (apart moment caused)

/-- A factory of the assembly that is at work is deferred to, however indirectly. -/
theorem Readings.deferred (readings : Readings number defers index moments) {moment : Moment}
    (member : moment ∈ moments) (own : moment.factory.assembly = number) :
    Relation.TransGen defers index moment.factory.entry := by
  induction readings with
  | nil => cases member
  | apart other _ ih =>
    rcases List.mem_cons.mp member with rfl | later
    · exact absurd own other
    · exact ih later
  | work deferred _ calling _ within onward =>
    simp only [List.mem_cons, List.mem_append] at member
    rcases member with rfl | inner | called | rfl | later
    · exact .single deferred
    · exact .head deferred (within inner)
    · rw [calling.factory_eq called own]
      exact .single deferred
    · exact .single deferred
    · exact onward later

end Moment

namespace Discipline

open Moment

variable {kind wider : List Moment → Prop} {ongoing : Ongoing kind} {ongoing' : Ongoing wider}

/-- What adds moments of one kind adds moments of a wider one. -/
theorem Respected.widen {α ε : Type} {attempt : Attempt Memory ε α} {gives : α → Prop}
    (respected : (adding kind ongoing).Respected attempt gives)
    (within : ∀ moments, kind moments → wider moments) :
    (adding wider ongoing').Respected attempt gives := by
  have passes {before after : Memory} (passes : (adding kind ongoing).Passes before after) :
      (adding wider ongoing').Passes before after := by
    obtain ⟨-, moments, one, added⟩ := passes
    exact ⟨trivial, moments, within moments one, added⟩
  intro before _
  exact (respected before trivial).mono (fun _ _ kept => ⟨passes kept.1, kept.2⟩)
    (fun _ _ kept => passes kept) fun _ kept => ⟨trivial, passes kept.2⟩

/-- Accessors that no factory of the assembly is behind let none of them work. -/
theorem apart_governs {number : Nat} {known : Accessor → Prop}
    (foreign : ∀ accessor, known accessor → ∀ producer, accessor.producer? = some producer →
      producer.factory.assembly ≠ number) :
    (adding (Apart number) (ongoing_apart number)).Governs known fun _ _ => True := by
  intro accessor member surroundings latches surrounded below
  have one {memory : Memory} {moment : Moment} (other : moment.factory.assembly ≠ number) :
      (adding (Apart number) (ongoing_apart number)).Passes memory (memory.record moment) :=
    ⟨trivial, [moment], List.forall_mem_singleton.mpr other, rfl⟩
  refine surrounded.respected_read latches trivial (fun _ _ => True) below
    (fun producer makes => ?_) ?_ fun _ _ => trivial
  · have other := foreign accessor member producer makes
    exact ⟨fun _ _ => one other, fun _ _ _ _ => one other, fun _ _ => one other⟩
  · exact ⟨fun _ _ _ _ => trivial, fun _ _ _ _ _ => ⟨trivial, [], (ongoing_apart number).nil,
      (List.append_nil _).symm⟩⟩

end Discipline

end Wiring
