import Wiring.Proofs.Questions

/-!
The works of factories in a history. Each work begins, may call its factory, and ends, and what
happens in between are whole works in their turn. So one can tell which calls a reading makes itself
from those that its dependencies and its factory cause.
-/

namespace Wiring

namespace Moment

/-- A kind of moments that can go on for ever. -/
structure Ongoing (kind : List Moment → Prop) : Prop where
  nil : kind []
  append : ∀ {first second}, kind first → kind second → kind (first ++ second)

/-- A history of whole works, one after the other and within each other. -/
inductive Whole : List Moment → Prop
  | nil : Whole []
  | missed (factory : FactoryId) {inner rest : List Moment} (within : Whole inner)
      (onward : Whole rest) : Whole (.begun factory :: (inner ++ .ended factory :: rest))
  | reached (factory : FactoryId) (handed : List (Key × Instance)) {inner body rest : List Moment}
      (within : Whole inner) (caused : Whole body) (onward : Whole rest) :
      Whole (.begun factory ::
        (inner ++ .called factory handed :: (body ++ .ended factory :: rest)))

/-- The factories that are called by works which lie in no other, when the history starts within
the given number of works. -/
def outerCalls : Nat → List Moment → List FactoryId
  | _, [] => []
  | depth, .begun _ :: rest => outerCalls (depth + 1) rest
  | depth, .ended _ :: rest => outerCalls (depth - 1) rest
  | depth, .called factory _ :: rest =>
    if depth = 1 then factory :: outerCalls depth rest else outerCalls depth rest

theorem Whole.append {first second : List Moment} (whole : Whole first) (onward : Whole second) :
    Whole (first ++ second) := by
  induction whole with
  | nil => exact onward
  | missed factory within _ _ ih =>
    rw [List.cons_append, List.append_assoc, List.cons_append]
    exact .missed factory within ih
  | reached factory handed within caused _ _ _ ih =>
    rw [List.cons_append, List.append_assoc, List.cons_append, List.append_assoc,
      List.cons_append]
    exact .reached factory handed within caused ih

theorem ongoing_whole : Ongoing Whole := ⟨.nil, .append⟩

/-- Works that lie in another make no outer call. -/
theorem Whole.outerCalls_append {inner : List Moment} (whole : Whole inner) {depth : Nat}
    (inside : 1 ≤ depth) (rest : List Moment) :
    outerCalls depth (inner ++ rest) = outerCalls depth rest := by
  induction whole generalizing depth rest with
  | nil => rfl
  | missed factory _ _ within onward =>
    rw [List.cons_append, List.append_assoc, List.cons_append, outerCalls,
      within (Nat.le_succ_of_le inside), outerCalls, Nat.succ_sub_one, onward inside]
  | reached factory handed _ _ _ within caused onward =>
    have deeper : depth + 1 ≠ 1 := by omega
    rw [List.cons_append, List.append_assoc, List.cons_append, List.append_assoc,
      List.cons_append, outerCalls, within (Nat.le_succ_of_le inside), outerCalls, if_neg deeper,
      caused (Nat.le_succ_of_le inside), outerCalls, Nat.succ_sub_one, onward inside]

end Moment

/-- Readings add to the history only moments of one kind. -/
def Discipline.adding (kind : List Moment → Prop) (ongoing : Moment.Ongoing kind) : Discipline where
  holds _ := True
  leads before after := ∃ moments, kind moments ∧ after.history = before.history ++ moments
  breaks := True
  refl memory := ⟨[], ongoing.nil, (List.append_nil _).symm⟩
  trans first second := by
    obtain ⟨moments, one, added⟩ := first
    obtain ⟨others, another, further⟩ := second
    exact ⟨moments ++ others, ongoing.append one another,
      by rw [further, added, List.append_assoc]⟩
  like like _ := ⟨trivial, [], ongoing.nil, by rw [like.history, List.append_nil]⟩

/-- Readings add whole works to the history. -/
def Discipline.working : Discipline where
  holds _ := True
  leads before after := ∃ works, Moment.Whole works ∧ after.history = before.history ++ works
  breaks := True
  refl memory := ⟨[], .nil, (List.append_nil _).symm⟩
  trans first second := by
    obtain ⟨works, whole, added⟩ := first
    obtain ⟨others, onward, further⟩ := second
    exact ⟨works ++ others, whole.append onward, by rw [further, added, List.append_assoc]⟩
  like like _ := ⟨trivial, [], .nil, by rw [like.history, List.append_nil]⟩

namespace Discipline

variable {discipline : Discipline} {surroundings : Surroundings}
  {dependencies : List (Key × Accessor)}

/-- All that a call causes keeps what its questions keep. -/
theorem passes_call (producer : Producer) (surrounded : discipline.Surrounded surroundings)
    (breaks : discipline.breaks) (values : List (Key × Instance)) (before : Memory)
    (holds : discipline.holds (before.record (.called producer.factory values))) :
    discipline.Passes (before.record (.called producer.factory values))
      (producer.call surroundings values before).2 := by
  have yields : (producer.call surroundings values).Yields before
      (fun _ after => discipline.Passes (before.record (.called producer.factory values)) after)
      (fun _ after => discipline.Passes (before.record (.called producer.factory values)) after)
      (fun after => discipline.Passes (before.record (.called producer.factory values)) after) := by
    simp only [Producer.call, Attempt.yields_bind, Attempt.yields_change, Attempt.yields_observe]
    refine (surrounded.respected_run breaks _ _ holds).mono ?_ (fun _ _ passes => passes)
      (fun _ passes => passes.2)
    intro handle last yielded
    obtain ⟨passes, -⟩ := yielded
    split
    · exact passes
    · exact passes
  exact yields.after

/-- An invocation begins, has its dependencies read, and ends. In between it calls its factory
exactly when all dependencies can be read. -/
theorem invoke_adds {reads causes : List Moment → Prop} (ongoing : Moment.Ongoing reads)
    (ongoing' : Moment.Ongoing causes) (producer : Producer)
    (surrounded : (adding causes ongoing').Surrounded surroundings)
    (each : ∀ dependency ∈ dependencies,
      (adding reads ongoing).Respected (dependency.2.read surroundings) fun _ => True)
    (before : Memory) :
    ∃ inner call, reads inner ∧
      (producer.invoke surroundings dependencies before).2.history =
        before.history ++ .begun producer.factory ::
          (inner ++ (call ++ [.ended producer.factory])) ∧
      match (Accessor.readEach surroundings producer.key dependencies
        (before.record (.begun producer.factory))).1 with
      | .value values => ∃ body, causes body ∧ call = .called producer.factory values :: body
      | .error _ => call = []
      | .panic _ => call = []
      | .exhausted => call = [] := by
  have reading := respected_readEach each producer.key (before.record (.begun producer.factory))
    trivial
  unfold Attempt.Yields at reading
  unfold Producer.invoke Producer.working Attempt.between Attempt.andThen
  rcases ends : Accessor.readEach surroundings producer.key dependencies
    (before.record (.begun producer.factory)) with ⟨ending, middle⟩
  rw [ends] at reading
  -- A dependency that cannot be read ends the work.
  have short (passes : (adding reads ongoing).Passes
      (before.record (.begun producer.factory)) middle) :
      ∃ inner call, reads inner ∧ (middle.record (.ended producer.factory)).history =
        before.history ++ .begun producer.factory ::
          (inner ++ (call ++ [.ended producer.factory])) ∧ call = [] := by
    obtain ⟨-, inner, within, added⟩ := passes
    refine ⟨inner, [], within, ?_, rfl⟩
    rw [Memory.record_history, added, Memory.record_history]
    simp
  cases ending with
  | error error => exact short reading
  | panic message => exact short reading.2
  | exhausted => exact short reading.2
  | value values =>
    obtain ⟨⟨-, inner, within, added⟩, -⟩ := reading
    obtain ⟨-, body, caused, further⟩ :=
      passes_call producer surrounded trivial values middle trivial
    rcases producer.call surroundings values middle with ⟨ending, last⟩
    refine ⟨inner, _, within, ?_, body, caused, rfl⟩
    dsimp only at further ⊢
    rw [Memory.record_history, further, Memory.record_history, added, Memory.record_history]
    simp

/-- An invocation is one work. It calls its factory itself exactly when all dependencies can be
read. -/
theorem invoke_works (producer : Producer) (surrounded : working.Surrounded surroundings)
    (each : ∀ dependency ∈ dependencies,
      working.Respected (dependency.2.read surroundings) fun _ => True) (before : Memory) :
    ∃ works, Moment.Whole works ∧
      (producer.invoke surroundings dependencies before).2.history = before.history ++ works ∧
      Moment.outerCalls 0 works =
        match (Accessor.readEach surroundings producer.key dependencies
          (before.record (.begun producer.factory))).1 with
        | .value _ => [producer.factory]
        | .error _ => []
        | .panic _ => []
        | .exhausted => [] := by
  obtain ⟨inner, call, within, added, calls⟩ :=
    invoke_adds Moment.ongoing_whole Moment.ongoing_whole producer surrounded each before
  -- Without a call the work is only that of the dependencies.
  have short (missed : call = []) : ∃ works, Moment.Whole works ∧
      (producer.invoke surroundings dependencies before).2.history = before.history ++ works ∧
      Moment.outerCalls 0 works = [] := by
    subst missed
    refine ⟨_, .missed _ within .nil, added, ?_⟩
    rw [Moment.outerCalls, within.outerCalls_append (Nat.le_refl 1)]
    rfl
  generalize (Accessor.readEach surroundings producer.key dependencies
    (before.record (.begun producer.factory))).1 = ending at calls ⊢
  cases ending with
  | error error => exact short calls
  | panic message => exact short calls
  | exhausted => exact short calls
  | value values =>
    obtain ⟨body, caused, rfl⟩ := calls
    refine ⟨_, .reached _ values within caused .nil, added, ?_⟩
    rw [Moment.outerCalls, within.outerCalls_append (Nat.le_refl 1), Moment.outerCalls,
      if_pos rfl, caused.outerCalls_append (Nat.le_refl 1)]
    rfl

/-- Every reading adds whole works to the history. -/
theorem working_governs : working.Governs (fun _ => True) fun _ _ => True := by
  intro accessor _ surroundings latches surrounded below
  have invoked {producer : Producer} {dependencies : List (Key × Accessor)}
      (each : ∀ dependency ∈ dependencies,
        working.Respected (dependency.2.read surroundings) fun _ => True) :
      working.Respected (producer.invoke surroundings dependencies) fun handle =>
        handle.type = producer.key.type := by
    refine respected_of_passes trivial (fun before _ => ?_) fun _ _ _ => Producer.type_of_invoke
    obtain ⟨works, whole, added, -⟩ := invoke_works producer surrounded each before
    exact ⟨trivial, works, whole, added⟩
  cases accessor with
  | constant id handle => exact respected_done trivial
  | prototype id producer dependencies => exact (invoked below).mono fun _ _ => trivial
  | lazy id producer dependencies =>
    have remembers : working.Remembers id producer.key.type fun _ => True :=
      ⟨fun _ _ _ _ => trivial,
        fun _ _ _ _ _ => ⟨trivial, [], .nil, (List.append_nil _).symm⟩⟩
    rw [latches.read_lazy]
    exact remembers.respected_recalling (invoked below) fun _ _ => trivial

/-- A reading of a prototype is one work. It calls its factory itself once when all dependencies
can be read, and not at all otherwise. -/
theorem prototype_works (applications : List Application) (depth : Nat) (id : AccessorId)
    (producer : Producer) (dependencies : List (Key × Accessor)) (before : Memory) :
    ∃ works, Moment.Whole works ∧
      (Accessor.read (Wiring.surroundings applications depth) (.prototype id producer dependencies)
        before).2.history = before.history ++ works ∧
      Moment.outerCalls 0 works =
        match (Accessor.readEach (Wiring.surroundings applications depth) producer.key dependencies
          (before.record (.begun producer.factory))).1 with
        | .value _ => [producer.factory]
        | .error _ => []
        | .panic _ => []
        | .exhausted => [] := by
  have closed := closed_all applications
  rw [Accessor.read_prototype]
  exact invoke_works producer (working_governs.surrounded trivial closed depth)
    (fun dependency _ => working_governs.respected_read trivial closed depth dependency.2 trivial)
    before

end Discipline

end Wiring
