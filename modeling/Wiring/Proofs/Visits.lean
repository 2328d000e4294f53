import Mathlib.Logic.Function.Iterate
import Mathlib.Logic.Relation
import Wiring.Proofs.Questions

/-!
Visits: readings while they go on. The invocation behind a reading advances by steps. It reads one
dependency after the other, it calls its factory, and the factory does one thing after the other
until it is over; all steps together come to what the invocation comes to at once. A step that
reads an accessor opens a visit to it, and that visit may open others.
-/

namespace Wiring

open Relation

/-- Reading a dependency leaves the memory that reading its accessor leaves. -/
theorem Accessor.readDependency_memory (surroundings : Surroundings) (owner : Key)
    (dependency : Key × Accessor) (memory : Memory) :
    (Accessor.readDependency surroundings owner dependency memory).2 =
      (dependency.2.read surroundings memory).2 := by
  obtain ⟨key, accessor⟩ := dependency
  simp only [Accessor.readDependency, Attempt.andThen, Attempt.mapError]
  rcases accessor.read surroundings memory with ⟨ending, after⟩
  cases ending <;> rfl

/-- A lookup leaves the memory that reading the accessor leaves which it finds. -/
theorem lookupIn_memory {applications : List Application} {read : Accessor → Evaluation Instance}
    {path : PoolPath} {key : Key} {pool : Pool} {entry : RuntimeEntry}
    (place : path.resolve? applications = some pool) (found : pool.find? key = some entry)
    (memory : Memory) :
    (lookupIn applications read path key memory).2 = (read entry.accessor memory).2 := by
  simp only [lookupIn, place, found, Attempt.andThen, Attempt.outcome, Attempt.mapError]
  rcases read entry.accessor memory with ⟨ending, after⟩
  cases ending <;> rfl

/-- Where an invocation stands. -/
inductive Stage where
  /-- Dependencies are still to be read; the values of the others are there. -/
  | gathering (pending : List (Key × Accessor)) (values : List (Key × Instance))
  /-- The factory is at work; this is left of what it does. -/
  | running (rest : Behaviour ConstructionError)
  /-- The invocation came to its end. -/
  | finished (ending : Ending ConstructionError Instance)

namespace Stage

/-- The stage after an attempt: the next one when there is a value, else the invocation is over. -/
def after {α : Type} (next : α → Stage) :
    Ending ConstructionError α × Memory → Stage × Memory
  | (.value value, memory) => (next value, memory)
  | (.error error, memory) => (.finished (.error error), memory)
  | (.panic message, memory) => (.finished (.panic message), memory)
  | (.exhausted, memory) => (.finished .exhausted, memory)

/-- The dependencies that are still to be read. -/
def pending : Stage → List (Key × Accessor)
  | .gathering pending _ => pending
  | .running _ => []
  | .finished _ => []

/-- The value that the factory asks for next. -/
def question? : Stage → Option (PoolPath × Key)
  | .running (.lookup path key _) => some (path, key)
  | _ => none

theorem exists_of_question? {stage : Stage} {path : PoolPath} {key : Key}
    (asks : stage.question? = some (path, key)) :
    ∃ next, stage = .running (.lookup path key next) := by
  cases stage with
  | gathering pending values => cases asks
  | finished ending => cases asks
  | running rest =>
    cases rest with
    | lookup _ _ next =>
      cases asks
      exact ⟨next, rfl⟩
    | _ => cases asks

@[simp] theorem after_memory {α : Type} (next : α → Stage)
    (result : Ending ConstructionError α × Memory) : (after next result).2 = result.2 := by
  obtain ⟨ending, memory⟩ := result
  cases ending <;> rfl

end Stage

namespace Producer

/-- What a factory gave counts only when it has the type of the key. -/
def checked (producer : Producer) (handle : Instance) : Ending ConstructionError Instance :=
  if handle.type = producer.key.type then
    .value handle
  else
    .error (.typeMismatch producer.key producer.key.type handle.type)

/-- One step of an invocation. -/
def advance (producer : Producer) (surroundings : Surroundings) : Stage × Memory → Stage × Memory
  | (.gathering [] values, memory) =>
    let called := memory.record (.called producer.factory values)
    (.running (producer.behaviour (called.calls producer.factory) ⟨producer.key, values⟩), called)
  | (.gathering (dependency :: pending) values, memory) =>
    Stage.after (fun value => .gathering pending (values ++ [value]))
      (Accessor.readDependency surroundings producer.key dependency memory)
  | (.running (.give value), memory) =>
    (.finished (producer.checked ⟨.made memory.objects, value⟩), memory.countObject)
  | (.running (.fail error), memory) => (.finished (.error error), memory)
  | (.running (.panic message), memory) => (.finished (.panic message), memory)
  | (.running (.write note next), memory) => (.running next, memory.write (.factory note))
  | (.running (.lookup path key next), memory) =>
    Stage.after (fun answer => .running (next answer)) (surroundings.lookup path key memory)
  | (.running (.peek path key next), memory) =>
    Stage.after (fun view => .running (next view)) (surroundings.peek path key memory)
  | (.finished ending, memory) => (.finished ending, memory)

/-- All that is left of an invocation, at once. -/
def finish (producer : Producer) (surroundings : Surroundings) : Stage → Evaluation Instance
  | .gathering pending values =>
    (Accessor.readEach surroundings producer.key pending).andThen fun others =>
      producer.call surroundings (values ++ others)
  | .running rest =>
    (rest.run surroundings).andThen fun handle => fun memory => (producer.checked handle, memory)
  | .finished ending => fun memory => (ending, memory)

variable {producer : Producer} {surroundings : Surroundings}

/-- After an attempt there is left what comes after its value. -/
theorem finish_after {α : Type} (attempt : Evaluation α) (next : α → Stage) (memory : Memory) :
    producer.finish surroundings (Stage.after next (attempt memory)).1
        (Stage.after next (attempt memory)).2 =
      attempt.andThen (fun value => producer.finish surroundings (next value)) memory := by
  unfold Attempt.andThen
  rcases attempt memory with ⟨ending, after⟩
  cases ending <;> rfl

theorem call_eq (values : List (Key × Instance)) (memory : Memory) :
    producer.call surroundings values memory =
      producer.finish surroundings
        (producer.advance surroundings (.gathering [] values, memory)).1
        (producer.advance surroundings (.gathering [] values, memory)).2 := by
  simp only [call, Attempt.bind_apply, Attempt.change_apply, Attempt.observe_apply, advance, finish,
    Attempt.andThen]
  split
  · rename_i handle after _
    unfold checked
    split <;> rfl
  · rfl
  · rfl
  · rfl

/-- A step changes nothing of what an invocation comes to. -/
theorem finish_advance (point : Stage × Memory) :
    producer.finish surroundings (producer.advance surroundings point).1
        (producer.advance surroundings point).2 =
      producer.finish surroundings point.1 point.2 := by
  obtain ⟨stage, memory⟩ := point
  cases stage with
  | gathering pending values =>
    cases pending with
    | nil =>
      rw [← call_eq]
      simp [finish, Accessor.readEach, Attempt.andThen]
    | cons dependency rest =>
      rw [advance, finish_after]
      simp only [finish, Accessor.readEach, Attempt.andThen]
      rcases Accessor.readDependency surroundings producer.key dependency memory with
        ⟨ending, after⟩
      cases ending with
      | value value =>
        dsimp only
        rcases Accessor.readEach surroundings producer.key rest after with ⟨ending, last⟩
        cases ending <;> simp [Attempt.done]
      | error error => rfl
      | panic message => rfl
      | exhausted => rfl
  | running rest =>
    cases rest with
    | give value => rfl
    | fail error => rfl
    | panic message => rfl
    | write note next => rfl
    | lookup path key next =>
      rw [advance, finish_after]
      simp only [finish, Behaviour.run, Attempt.andThen, Attempt.bind_apply]
      rcases surroundings.lookup path key memory with ⟨ending, after⟩
      cases ending <;> rfl
    | peek path key next =>
      rw [advance, finish_after]
      simp only [finish, Behaviour.run, Attempt.andThen, Attempt.bind_apply]
      rcases surroundings.peek path key memory with ⟨ending, after⟩
      cases ending <;> rfl
  | finished ending => rfl

/-- Any number of steps changes nothing of what an invocation comes to. -/
theorem finish_iterate (point : Stage × Memory) (count : Nat) :
    producer.finish surroundings ((producer.advance surroundings)^[count] point).1
        ((producer.advance surroundings)^[count] point).2 =
      producer.finish surroundings point.1 point.2 := by
  induction count with
  | zero => rfl
  | succ count ih => rw [Function.iterate_succ_apply', finish_advance, ih]

/-- After some number of steps the invocation is over. -/
def Comes (producer : Producer) (surroundings : Surroundings) (point : Stage × Memory) : Prop :=
  ∃ count ending last, (producer.advance surroundings)^[count] point = (.finished ending, last)

theorem comes_finished (ending : Ending ConstructionError Instance) (memory : Memory) :
    producer.Comes surroundings (.finished ending, memory) := ⟨0, ending, memory, rfl⟩

theorem Comes.of_advance {point : Stage × Memory}
    (comes : producer.Comes surroundings (producer.advance surroundings point)) :
    producer.Comes surroundings point := by
  obtain ⟨count, ending, last, finished⟩ := comes
  exact ⟨count + 1, ending, last, by rw [Function.iterate_succ_apply, finished]⟩

theorem comes_after {α : Type} {next : α → Stage}
    (onward : ∀ value memory, producer.Comes surroundings (next value, memory))
    (result : Ending ConstructionError α × Memory) :
    producer.Comes surroundings (Stage.after next result) := by
  obtain ⟨ending, memory⟩ := result
  cases ending with
  | value value => exact onward value memory
  | error error => exact comes_finished _ _
  | panic message => exact comes_finished _ _
  | exhausted => exact comes_finished _ _

/-- A factory at work comes to its end, as its behaviour is a tree. -/
theorem comes_running (rest : Behaviour ConstructionError) (memory : Memory) :
    producer.Comes surroundings (.running rest, memory) := by
  induction rest generalizing memory with
  | give value => exact .of_advance (comes_finished _ _)
  | fail error => exact .of_advance (comes_finished _ _)
  | panic message => exact .of_advance (comes_finished _ _)
  | write note next ih => exact .of_advance (ih _)
  | lookup path key next ih => exact .of_advance (comes_after ih _)
  | peek path key next ih => exact .of_advance (comes_after ih _)

/-- Every invocation comes to its end. -/
theorem comes_gathering (pending : List (Key × Accessor)) (values : List (Key × Instance))
    (memory : Memory) : producer.Comes surroundings (.gathering pending values, memory) := by
  induction pending generalizing values memory with
  | nil => exact .of_advance (comes_running _ _)
  | cons dependency rest ih => exact .of_advance (comes_after (fun _ => ih _) _)

/-- An invocation is what its steps come to. -/
theorem invoke_eq_finish (dependencies : List (Key × Accessor)) (memory : Memory) :
    producer.invoke surroundings dependencies memory =
      ((producer.finish surroundings (.gathering dependencies [])
          (memory.record (.begun producer.factory))).1,
        (producer.finish surroundings (.gathering dependencies [])
          (memory.record (.begun producer.factory))).2.record (.ended producer.factory)) := rfl

theorem pending_advance (point : Stage × Memory) :
    (producer.advance surroundings point).1.pending ⊆ point.1.pending := by
  have shrinks {α : Type} {next : α → Stage} {within : List (Key × Accessor)}
      (below : ∀ value, (next value).pending ⊆ within)
      (result : Ending ConstructionError α × Memory) :
      (Stage.after next result).1.pending ⊆ within := by
    obtain ⟨ending, memory⟩ := result
    cases ending with
    | value value => exact below value
    | error error => exact List.nil_subset _
    | panic message => exact List.nil_subset _
    | exhausted => exact List.nil_subset _
  obtain ⟨stage, memory⟩ := point
  cases stage with
  | gathering pending values =>
    cases pending with
    | nil => exact List.nil_subset _
    | cons dependency rest =>
      have below (_ : Key × Instance) : rest ⊆ dependency :: rest := List.subset_cons_self _ _
      exact shrinks below _
  | running rest =>
    cases rest with
    | give value => exact List.nil_subset _
    | fail error => exact List.nil_subset _
    | panic message => exact List.nil_subset _
    | write note next => exact List.nil_subset _
    | lookup path key next => exact shrinks (fun _ => List.nil_subset _) _
    | peek path key next => exact shrinks (fun _ => List.nil_subset _) _
  | finished ending => exact List.nil_subset _

end Producer

/-- A reading of an accessor: the memory in which it begins, and how deep the questions of
factories may go. -/
structure Visit where
  depth : Nat
  accessor : Accessor
  memory : Memory

namespace Visit

/-- What comes of the visit, and the memory that it leaves. -/
def result (applications : List Application) (visit : Visit) :
    Ending ConstructionError Instance × Memory :=
  visit.accessor.read (surroundings applications visit.depth) visit.memory

/-- The visit invokes a producer with these dependencies in this memory. A lazy accessor is
computing then. -/
inductive Invokes : Visit → Producer → List (Key × Accessor) → Memory → Prop
  | once {depth : Nat} {id : AccessorId} {producer : Producer}
      {dependencies : List (Key × Accessor)} {memory : Memory}
      (empty : memory.cells id = .empty) :
      Invokes ⟨depth, .lazy id producer dependencies, memory⟩ producer dependencies
        (memory.store id .computing)
  | anew {depth : Nat} {id : AccessorId} {producer : Producer}
      {dependencies : List (Key × Accessor)} {memory : Memory} :
      Invokes ⟨depth, .prototype id producer dependencies, memory⟩ producer dependencies memory

/-- After so many steps the invocation of the visit stands at the stage, at this moment. -/
def Stands (applications : List Application) (visit : Visit) (count : Nat) (stage : Stage)
    (moment : Memory) : Prop :=
  ∃ producer dependencies start, visit.Invokes producer dependencies start ∧
    (producer.advance (surroundings applications visit.depth))^[count]
      (.gathering dependencies [], start.record (.begun producer.factory)) = (stage, moment)

/-- The next step of the one visit is to make the other one. -/
inductive Opens (applications : List Application) : Visit → Visit → Prop
  | dependency {visit : Visit} {count : Nat} {dependency : Key × Accessor}
      {pending : List (Key × Accessor)} {values : List (Key × Instance)} {moment : Memory}
      (stands : visit.Stands applications count (.gathering (dependency :: pending) values)
        moment) :
      Opens applications visit ⟨visit.depth, dependency.2, moment⟩
  | question {visit : Visit} {count depth : Nat} {stage : Stage} {moment : Memory}
      {path : PoolPath} {key : Key} {pool : Pool} {entry : RuntimeEntry}
      (stands : visit.Stands applications count stage moment)
      (asks : stage.question? = some (path, key)) (deep : visit.depth = depth + 1)
      (place : path.resolve? applications = some pool) (found : pool.find? key = some entry) :
      Opens applications visit ⟨depth, entry.accessor, moment⟩

/-- While the visit goes on, the first memory turns into the second: when the invocation begins,
with each of its steps, during the visits that it opens, and when what came of it is remembered. -/
inductive Passes (applications : List Application) : Visit → Memory → Memory → Prop
  | begins {visit : Visit} {stage : Stage} {moment : Memory}
      (stands : visit.Stands applications 0 stage moment) :
      Passes applications visit visit.memory moment
  | advances {visit : Visit} {count : Nat} {stage onward : Stage} {moment next : Memory}
      (stands : visit.Stands applications count stage moment)
      (follows : visit.Stands applications (count + 1) onward next) :
      Passes applications visit moment next
  | inside {visit inner : Visit} {before after : Memory} (opens : visit.Opens applications inner)
      (passes : Passes applications inner before after) : Passes applications visit before after
  | ends {visit : Visit} {count : Nat} {ending : Ending ConstructionError Instance} {last : Memory}
      (finished : visit.Stands applications count (.finished ending) last) :
      Passes applications visit last (visit.result applications).2

variable {applications : List Application} {visit inner : Visit} {producer : Producer}
  {dependencies : List (Key × Accessor)} {start moment : Memory} {stage : Stage} {count : Nat}

theorem Invokes.dependencies_eq (invokes : visit.Invokes producer dependencies start) :
    visit.accessor.dependencies = dependencies := by
  cases invokes <;> rfl

/-- An invocation that begins is over after some number of steps. -/
theorem Invokes.exists_finished (invokes : visit.Invokes producer dependencies start)
    (applications : List Application) :
    ∃ count ending last, visit.Stands applications count (.finished ending) last := by
  have comes : producer.Comes (surroundings applications visit.depth)
      (.gathering dependencies [], start.record (.begun producer.factory)) :=
    Producer.comes_gathering dependencies [] _
  obtain ⟨count, ending, last, finished⟩ := comes
  exact ⟨count, ending, last, producer, dependencies, start, invokes, finished⟩

/-- What is still to be read are dependencies of the accessor. -/
theorem Stands.pending (stands : visit.Stands applications count stage moment) :
    stage.pending ⊆ visit.accessor.dependencies := by
  obtain ⟨producer, dependencies, start, invokes, point⟩ := stands
  rw [invokes.dependencies_eq]
  have shrinks : ((producer.advance (surroundings applications visit.depth))^[count]
      (.gathering dependencies [], start.record (.begun producer.factory))).1.pending ⊆
      dependencies := by
    clear point
    induction count with
    | zero => exact List.Subset.refl _
    | succ count ih =>
      rw [Function.iterate_succ_apply']
      exact List.Subset.trans (Producer.pending_advance _) ih
  rwa [point] at shrinks

/-- A visit opens visits to accessors of the same family only. -/
theorem Opens.known {known : Accessor → Prop} (opens : visit.Opens applications inner)
    (closed : Closed applications known) (member : known visit.accessor) :
    known inner.accessor := by
  cases opens with
  | dependency stands =>
    exact closed.dependencies _ member _ (stands.pending List.mem_cons_self)
  | question stands asks deep place found => exact closed.visible _ _ _ _ place found

/-- The invocation comes to the ending that its steps come to. -/
theorem invoke_of_finished {ending : Ending ConstructionError Instance} {last : Memory}
    (finished : (producer.advance (surroundings applications visit.depth))^[count]
      (.gathering dependencies [], start.record (.begun producer.factory)) =
        (.finished ending, last)) :
    producer.invoke (surroundings applications visit.depth) dependencies start =
      (ending, last.record (.ended producer.factory)) := by
  have same : producer.finish (surroundings applications visit.depth) (.finished ending) last =
      producer.finish (surroundings applications visit.depth) (.gathering dependencies [])
        (start.record (.begun producer.factory)) := by
    rw [← Producer.finish_iterate (.gathering dependencies [],
      start.record (.begun producer.factory)) count, finished]
  rw [Producer.invoke_eq_finish, ← same]
  rfl

/-- A visit takes one step more. -/
theorem Stands.onward (stands : visit.Stands applications count stage moment) :
    ∃ producer : Producer, visit.Stands applications (count + 1)
      (producer.advance (surroundings applications visit.depth) (stage, moment)).1
      (producer.advance (surroundings applications visit.depth) (stage, moment)).2 := by
  obtain ⟨producer, dependencies, start, invokes, point⟩ := stands
  exact ⟨producer, producer, dependencies, start, invokes,
    by rw [Function.iterate_succ_apply', point]⟩

/-- A visit goes on where the one that it opened ended. -/
theorem Opens.resumes (opens : visit.Opens applications inner) :
    ∃ count stage, visit.Stands applications count stage (inner.result applications).2 := by
  cases opens with
  | @dependency count dependency pending values moment stands =>
    obtain ⟨producer, onward⟩ := stands.onward
    rw [Producer.advance, Stage.after_memory, Accessor.readDependency_memory] at onward
    exact ⟨_, _, onward⟩
  | @question count depth stage moment path key pool entry stands asks deep place found =>
    obtain ⟨next, rfl⟩ := Stage.exists_of_question? asks
    obtain ⟨producer, onward⟩ := stands.onward
    rw [Producer.advance, Stage.after_memory, deep, surroundings, lookupIn_memory place found]
      at onward
    exact ⟨_, _, onward⟩

end Visit

end Wiring
