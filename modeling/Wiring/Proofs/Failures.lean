import Wiring.Proofs.Cells

/-!
Failures: how a reading comes to an error. An invocation reads its dependencies in order, and where
one of them cannot be read it is over: the error is that of the dependency behind the key of the
owner and the key of the dependency. Where all were read the factory is called, and the error is the
one that it reports, or it made a value of another type. A lazy accessor that does not invoke
anything gives the error that it remembers, or it is computing.
-/

namespace Wiring

/-- No question of a factory ends in an error of the factory: what goes wrong is an answer. -/
structure Surroundings.Answering (surroundings : Surroundings) : Prop where
  lookup : ∀ path key before error after,
    surroundings.lookup path key before ≠ (.error error, after)
  peek : ∀ path key before error after, surroundings.peek path key before ≠ (.error error, after)

section

variable {applications : List Application} {path : PoolPath} {key : Key} {before after : Memory}
  {error : ConstructionError}

theorem peekIn_ne_error : peekIn applications path key before ≠ (.error error, after) := by
  intro ends
  cases ends

/-- Where its reading comes to an error, a lookup answers with it. -/
theorem lookupIn_ne_error {read : Accessor → Evaluation Instance} :
    lookupIn applications read path key before ≠ (.error error, after) := by
  intro ends
  unfold lookupIn at ends
  cases place : path.resolve? applications with
  | none =>
    rw [place] at ends
    cases ends
  | some pool =>
    rw [place] at ends
    dsimp only at ends
    cases found : pool.find? key with
    | none =>
      rw [found] at ends
      cases ends
    | some entry =>
      rw [found] at ends
      simp only [Attempt.andThen, Attempt.outcome, Attempt.mapError] at ends
      rcases reads : read entry.accessor before with ⟨ending, last⟩
      rw [reads] at ends
      cases ending <;> cases ends

end

theorem answering_surroundings (applications : List Application) (depth : Nat) :
    (surroundings applications depth).Answering where
  lookup path key before error after := by
    cases depth with
    | zero =>
      intro ends
      cases ends
    | succ depth => exact lookupIn_ne_error
  peek path key before error after := by
    cases depth with
    | zero => exact peekIn_ne_error
    | succ depth => exact peekIn_ne_error

namespace Behaviour

variable {ε δ : Type} {surroundings : Surroundings} {before after : Memory}

/-- From the first memory the behaviour comes to report the error, and it leaves the second one. -/
inductive Reports (surroundings : Surroundings) : Behaviour ε → Memory → ε → Memory → Prop
  | fail (error : ε) (memory : Memory) : Reports surroundings (.fail error) memory error memory
  | write {note : FactoryNote} {next : Behaviour ε} {error : ε} {before after : Memory}
      (onward : Reports surroundings next (before.write (.factory note)) error after) :
      Reports surroundings (.write note next) before error after
  | lookup {path : PoolPath} {key : Key}
      {next : Option (Except LookupError Instance) → Behaviour ε}
      {answer : Option (Except LookupError Instance)} {error : ε} {before middle after : Memory}
      (answers : surroundings.lookup path key before = (.value answer, middle))
      (onward : Reports surroundings (next answer) middle error after) :
      Reports surroundings (.lookup path key next) before error after
  | peek {path : PoolPath} {key : Key} {next : Option (Option EntryView) → Behaviour ε}
      {view : Option (Option EntryView)} {error : ε} {before middle after : Memory}
      (answers : surroundings.peek path key before = (.value view, middle))
      (onward : Reports surroundings (next view) middle error after) :
      Reports surroundings (.peek path key next) before error after

/-- A behaviour that reports to nobody ends in what it reports. -/
theorem run_eq_error_iff (answering : surroundings.Answering)
    {behaviour : Behaviour ConstructionError} {error : ConstructionError} :
    behaviour.run surroundings before = (.error error, after) ↔
      behaviour.Reports surroundings before error after := by
  induction behaviour generalizing before with
  | give value => exact ⟨nofun, nofun⟩
  | fail reported =>
    constructor
    · intro ends
      cases ends
      exact .fail _ _
    · intro reports
      cases reports
      rfl
  | panic message => exact ⟨nofun, nofun⟩
  | write note next ih =>
    refine Iff.trans ih ⟨.write, fun reports => ?_⟩
    cases reports with
    | write onward => exact onward
  | lookup path key next ih =>
    rw [run, Attempt.bind_apply]
    rcases asked : surroundings.lookup path key before with ⟨ending, middle⟩
    constructor
    · intro ends
      cases ending with
      | value answer => exact .lookup asked ((ih answer).mp ends)
      | error other => exact absurd asked (answering.lookup path key before other middle)
      | panic message => cases ends
      | exhausted => cases ends
    · intro reports
      cases reports with
      | lookup answers onward =>
        cases asked.symm.trans answers
        exact (ih _).mpr onward
  | peek path key next ih =>
    rw [run, Attempt.bind_apply]
    rcases asked : surroundings.peek path key before with ⟨ending, middle⟩
    constructor
    · intro ends
      cases ending with
      | value view => exact .peek asked ((ih view).mp ends)
      | error other => exact absurd asked (answering.peek path key before other middle)
      | panic message => cases ends
      | exhausted => cases ends
    · intro reports
      cases reports with
      | peek answers onward =>
        cases asked.symm.trans answers
        exact (ih _).mpr onward

theorem reports_fail_iff {reported error : ε} :
    (Behaviour.fail reported).Reports surroundings before error after ↔
      error = reported ∧ after = before := by
  constructor
  · intro reports
    cases reports
    exact ⟨rfl, rfl⟩
  · rintro ⟨rfl, rfl⟩
    exact .fail _ _

/-- With other ends in place of its errors, a behaviour reports what comes of an error that it
reports by itself. -/
theorem reports_catchWith_iff {handler : ε → Behaviour δ} {behaviour : Behaviour ε} {error : δ} :
    (behaviour.catchWith handler).Reports surroundings before error after ↔
      ∃ raised middle, behaviour.Reports surroundings before raised middle ∧
        (handler raised).Reports surroundings middle error after := by
  induction behaviour generalizing before with
  | give value => exact ⟨nofun, fun ⟨_, _, reports, _⟩ => nomatch reports⟩
  | fail raised =>
    refine ⟨fun reports => ⟨raised, before, .fail _ _, reports⟩, ?_⟩
    rintro ⟨_, _, reports, onward⟩
    cases reports
    exact onward
  | panic message => exact ⟨nofun, fun ⟨_, _, reports, _⟩ => nomatch reports⟩
  | write note next ih =>
    constructor
    · intro reports
      cases reports with
      | write onward =>
        obtain ⟨raised, middle, reports, further⟩ := ih.mp onward
        exact ⟨raised, middle, .write reports, further⟩
    · rintro ⟨raised, middle, reports, further⟩
      cases reports with
      | write onward => exact .write (ih.mpr ⟨raised, middle, onward, further⟩)
  | lookup path key next ih =>
    constructor
    · intro reports
      cases reports with
      | lookup answers onward =>
        obtain ⟨raised, middle, reports, further⟩ := (ih _).mp onward
        exact ⟨raised, middle, .lookup answers reports, further⟩
    · rintro ⟨raised, middle, reports, further⟩
      cases reports with
      | lookup answers onward =>
        exact .lookup answers ((ih _).mpr ⟨raised, middle, onward, further⟩)
  | peek path key next ih =>
    constructor
    · intro reports
      cases reports with
      | peek answers onward =>
        obtain ⟨raised, middle, reports, further⟩ := (ih _).mp onward
        exact ⟨raised, middle, .peek answers reports, further⟩
    · rintro ⟨raised, middle, reports, further⟩
      cases reports with
      | peek answers onward =>
        exact .peek answers ((ih _).mpr ⟨raised, middle, onward, further⟩)

/-- Where each error is turned into another one, what is reported is a turned error. -/
theorem reports_turned_iff {turn : ε → δ} {behaviour : Behaviour ε} {error : δ} :
    (behaviour.catchWith fun raised => .fail (turn raised)).Reports surroundings before error
        after ↔
      ∃ raised, behaviour.Reports surroundings before raised after ∧ error = turn raised := by
  simp only [reports_catchWith_iff, reports_fail_iff]
  constructor
  · rintro ⟨raised, middle, reports, rfl, rfl⟩
    exact ⟨raised, reports, rfl⟩
  · rintro ⟨raised, reports, rfl⟩
    exact ⟨raised, after, reports, rfl, rfl⟩

end Behaviour

namespace Factory

variable {surroundings : Surroundings} {dependencies : Dependencies} {before after : Memory}
  {error : ConstructionError} {call : Nat}

/-- What a function reports that reads its dependencies by itself: a construction error as it is,
and another error as a failure of the owner. -/
theorem reports_ofReader_iff {function : Nat → Dependencies → Behaviour Raised} :
    ((ofReader function).behaviour call dependencies).Reports surroundings before error after ↔
      ∃ raised, (function call dependencies).Reports surroundings before raised after ∧
        error = raised.toConstructionError dependencies.owner :=
  Behaviour.reports_turned_iff

/-- So does a closure that may fail; where its parameters cannot be fetched it reports why. -/
theorem reports_ofFallible_iff {parameters : List ServiceType}
    {function : Nat → List Value → Behaviour Raised} :
    ((ofFallible parameters function).behaviour call dependencies).Reports surroundings before error
        after ↔
      (dependencies.parameters parameters = .error error ∧ after = before) ∨
        ∃ values raised, dependencies.parameters parameters = .ok values ∧
          (function call values).Reports surroundings before raised after ∧
          error = raised.toConstructionError dependencies.owner := by
  cases fetched : dependencies.parameters parameters with
  | error refused => simp [ofFallible, fetched, Behaviour.reports_fail_iff, eq_comm]
  | ok values => simp [ofFallible, fetched, Behaviour.reports_turned_iff]

/-- A closure that cannot fail reports nothing but why its parameters cannot be fetched. -/
theorem reports_ofInfallible_iff {parameters : List ServiceType}
    {function : Nat → List Value → Behaviour Raised} :
    ((ofInfallible parameters function).behaviour call dependencies).Reports surroundings before
        error after ↔ dependencies.parameters parameters = .error error ∧ after = before := by
  cases fetched : dependencies.parameters parameters with
  | error refused => simp [ofInfallible, fetched, Behaviour.reports_fail_iff, eq_comm]
  | ok values =>
    simp only [ofInfallible, fetched, Behaviour.reports_catchWith_iff, reduceCtorEq, false_and,
      iff_false]
    rintro ⟨raised, middle, -, reports⟩
    cases reports

end Factory

namespace Producer

variable {producer : Producer} {surroundings : Surroundings} {handed : List (Key × Instance)}
  {before after : Memory} {error : ConstructionError}

/-- A call of the factory with these values, from the first memory to the second, fails: the factory
reports the error, or what it made has another type than the key. -/
inductive Faults (producer : Producer) (surroundings : Surroundings)
    (handed : List (Key × Instance)) (before : Memory) : ConstructionError → Memory → Prop
  | reported {error : ConstructionError} {after : Memory}
      (reports : (producer.behaviour
          ((before.record (.called producer.factory handed)).calls producer.factory)
          ⟨producer.key, handed⟩).Reports surroundings
        (before.record (.called producer.factory handed)) error after) :
      Faults producer surroundings handed before error after
  | mismatched {handle : Instance} {after : Memory}
      (gives : (producer.behaviour
          ((before.record (.called producer.factory handed)).calls producer.factory)
          ⟨producer.key, handed⟩).run surroundings
        (before.record (.called producer.factory handed)) = (.value handle, after))
      (other : handle.type ≠ producer.key.type) :
      Faults producer surroundings handed before
        (.typeMismatch producer.key producer.key.type handle.type) after

theorem call_eq_error_iff (answering : surroundings.Answering) :
    producer.call surroundings handed before = (.error error, after) ↔
      producer.Faults surroundings handed before error after := by
  simp only [call, Attempt.bind_apply, Attempt.change_apply, Attempt.observe_apply]
  rcases ends : (producer.behaviour
      ((before.record (.called producer.factory handed)).calls producer.factory)
      ⟨producer.key, handed⟩).run surroundings
    (before.record (.called producer.factory handed)) with ⟨ending, last⟩
  constructor
  · intro fails
    cases ending with
    | panic message => cases fails
    | exhausted => cases fails
    | error reason =>
      cases fails
      exact .reported ((Behaviour.run_eq_error_iff answering).mp ends)
    | value handle =>
      dsimp only at fails
      split at fails
      · cases fails
      · rename_i other
        cases fails
        exact .mismatched ends other
  · intro faults
    cases faults with
    | reported reports =>
      have reported := (Behaviour.run_eq_error_iff answering).mpr reports
      cases ends.symm.trans reported
      rfl
    | mismatched gives other =>
      cases ends.symm.trans gives
      simp only [if_neg other, Attempt.fail_apply]

/-- A step of an invocation reads the accessor of the next dependency. -/
theorem advance_gathering (key : Key) (accessor : Accessor) (pending : List (Key × Accessor))
    (values : List (Key × Instance)) (memory : Memory) :
    producer.advance surroundings (.gathering ((key, accessor) :: pending) values, memory) =
      match accessor.read surroundings memory with
      | (.value handle, after) => (.gathering pending (values ++ [(key, handle)]), after)
      | (.error source, after) =>
        (.finished (.error (.dependency producer.key key source)), after)
      | (.panic message, after) => (.finished (.panic message), after)
      | (.exhausted, after) => (.finished .exhausted, after) := by
  simp only [advance, Accessor.readDependency, Attempt.andThen, Attempt.mapError]
  rcases accessor.read surroundings memory with ⟨ending, after⟩
  cases ending <;> rfl

/-- The dependencies are read one after the other, each to a value, from the first memory to the
second. -/
inductive Gathers (surroundings : Surroundings) :
    List (Key × Accessor) → Memory → List (Key × Instance) → Memory → Prop
  | nil (memory : Memory) : Gathers surroundings [] memory [] memory
  | cons {key : Key} {accessor : Accessor} {rest : List (Key × Accessor)} {handle : Instance}
      {values : List (Key × Instance)} {before middle after : Memory}
      (reads : accessor.read surroundings before = (.value handle, middle))
      (onward : Gathers surroundings rest middle values after) :
      Gathers surroundings ((key, accessor) :: rest) before ((key, handle) :: values) after

theorem Gathers.keys {dependencies : List (Key × Accessor)} {values : List (Key × Instance)}
    (gathers : Gathers surroundings dependencies before values after) :
    values.map Prod.fst = dependencies.map Prod.fst := by
  induction gathers with
  | nil => rfl
  | cons reads onward ih => rw [List.map_cons, List.map_cons, ih]

/-- What is read in the end was read in part before. -/
theorem Gathers.exists_take {dependencies : List (Key × Accessor)}
    {values : List (Key × Instance)}
    (gathers : Gathers surroundings dependencies before values after) (count : Nat) :
    ∃ read middle, Gathers surroundings (dependencies.take count) before read middle := by
  induction gathers generalizing count with
  | nil memory => exact ⟨[], memory, by simpa using .nil memory⟩
  | cons reads onward ih =>
    cases count with
    | zero => exact ⟨[], _, .nil _⟩
    | succ count =>
      obtain ⟨read, middle, further⟩ := ih count
      exact ⟨_, middle, .cons reads further⟩

/-- One step is taken for each dependency that is read. -/
theorem Gathers.advance_iterate {done : List (Key × Accessor)} {handed : List (Key × Instance)}
    (gathers : Gathers surroundings done before handed after) (pending : List (Key × Accessor))
    (values : List (Key × Instance)) :
    (producer.advance surroundings)^[done.length] (.gathering (done ++ pending) values, before) =
      (.gathering pending (values ++ handed), after) := by
  induction gathers generalizing values with
  | nil => simp
  | @cons key accessor rest handle others before middle after reads onward ih =>
    rw [List.length_cons, Function.iterate_succ_apply, List.cons_append, advance_gathering, reads,
      List.append_cons]
    exact ih (values ++ [(key, handle)])

/-- Where an invocation comes to an error, the first dependency that cannot be read does, or all are
read and the call does. -/
theorem exists_of_finish_eq_error {pending : List (Key × Accessor)}
    {values : List (Key × Instance)}
    (fails : producer.finish surroundings (.gathering pending values) before =
      (.error error, after)) :
    (∃ done rest key inner handed middle source, pending = done ++ (key, inner) :: rest ∧
      Gathers surroundings done before handed middle ∧
      inner.read surroundings middle = (.error source, after) ∧
      error = .dependency producer.key key source) ∨
    ∃ handed middle, Gathers surroundings pending before handed middle ∧
      producer.call surroundings (values ++ handed) middle = (.error error, after) := by
  induction pending generalizing values before with
  | nil =>
    refine .inr ⟨[], before, .nil before, ?_⟩
    rw [List.append_nil]
    simpa [finish, Accessor.readEach, Attempt.andThen] using fails
  | cons dependency rest ih =>
    obtain ⟨key, accessor⟩ := dependency
    have onward : producer.finish surroundings
        (producer.advance surroundings (.gathering ((key, accessor) :: rest) values, before)).1
        (producer.advance surroundings (.gathering ((key, accessor) :: rest) values, before)).2 =
          (.error error, after) := (finish_advance _).trans fails
    rw [advance_gathering] at onward
    rcases reads : accessor.read surroundings before with ⟨ending, middle⟩
    rw [reads] at onward
    cases ending with
    | panic message => cases onward
    | exhausted => cases onward
    | error source =>
      cases onward
      exact .inl ⟨[], rest, key, accessor, [], before, source, rfl, .nil before, reads, rfl⟩
    | value handle =>
      rcases ih onward with
        ⟨done, others, other, inner, handed, moment, source, rfl, gathers, fails, same⟩ |
        ⟨handed, moment, gathers, calls⟩
      · exact .inl ⟨(key, accessor) :: done, others, other, inner, _, moment, source, rfl,
          .cons reads gathers, fails, same⟩
      · refine .inr ⟨_, moment, .cons reads gathers, ?_⟩
        rw [List.append_assoc] at calls
        exact calls

end Producer

namespace Visit

variable {applications : List Application} {visit : Visit} {producer : Producer}
  {dependencies : List (Key × Accessor)} {start : Memory} {error : ConstructionError}

/-- How a visit comes to an error. -/
inductive Fails (applications : List Application) : Visit → ConstructionError → Prop
  /-- The first dependency that cannot be read ends the invocation. Those before it were read, one
  by each step; from the step after it on the invocation is over, so that no later one is read and
  the factory is not called. -/
  | dependency {visit : Visit} {producer : Producer} {done rest : List (Key × Accessor)}
      {key : Key} {inner : Accessor} {handed : List (Key × Instance)} {start moment last : Memory}
      {source : ConstructionError}
      (invokes : visit.Invokes producer (done ++ (key, inner) :: rest) start)
      (gathers : Producer.Gathers (surroundings applications visit.depth) done
        (start.record (.begun producer.factory)) handed moment)
      (fails : (Visit.mk visit.depth inner moment).result applications = (.error source, last))
      (reads : ∀ count ≤ done.length, ∃ values moment, visit.Stands applications count
        (.gathering ((done ++ (key, inner) :: rest).drop count) values) moment)
      (ended : ∀ count, done.length < count → visit.Stands applications count
        (.finished (.error (.dependency producer.key key source))) last) :
      Fails applications visit (.dependency producer.key key source)
  /-- All dependencies are read, and the call of the factory fails. -/
  | called {visit : Visit} {producer : Producer} {dependencies : List (Key × Accessor)}
      {handed : List (Key × Instance)} {start moment last : Memory} {error : ConstructionError}
      (invokes : visit.Invokes producer dependencies start)
      (gathers : Producer.Gathers (surroundings applications visit.depth) dependencies
        (start.record (.begun producer.factory)) handed moment)
      (faults : producer.Faults (surroundings applications visit.depth) handed moment error last) :
      Fails applications visit error
  /-- Nothing is invoked, and the error is the one that was remembered. -/
  | remembered {depth : Nat} {id : AccessorId} {producer : Producer}
      {dependencies : List (Key × Accessor)} {memory : Memory} {error : ConstructionError}
      (known : memory.cells id = .failed error) :
      Fails applications ⟨depth, .lazy id producer dependencies, memory⟩ error
  /-- Nothing is invoked, as the accessor is computing. -/
  | refused {depth : Nat} {id : AccessorId} {producer : Producer}
      {dependencies : List (Key × Accessor)} {memory : Memory}
      (computing : memory.cells id = .computing) :
      Fails applications ⟨depth, .lazy id producer dependencies, memory⟩ (.reentrant producer.key)

/-- An invocation that comes to an error does so at a dependency or in the call. -/
theorem Invokes.fails (invokes : visit.Invokes producer dependencies start)
    (ends : (producer.invoke (surroundings applications visit.depth) dependencies start).1 =
      .error error) : visit.Fails applications error := by
  rw [Producer.invoke_eq_finish] at ends
  rcases finished : producer.finish (surroundings applications visit.depth)
    (.gathering dependencies []) (start.record (.begun producer.factory)) with ⟨ending, last⟩
  rw [finished] at ends
  obtain rfl : ending = .error error := ends
  rcases Producer.exists_of_finish_eq_error finished with
    ⟨done, rest, key, inner, handed, moment, source, rfl, gathers, fails, rfl⟩ |
    ⟨handed, moment, gathers, calls⟩
  · refine .dependency invokes gathers fails (fun count before => ?_) fun count beyond => ?_
    · obtain ⟨read, middle, part⟩ := gathers.exists_take count
      refine ⟨read, middle, producer, _, start, invokes, ?_⟩
      have point : (producer.advance (surroundings applications visit.depth))^[_] _ = _ :=
        part.advance_iterate (done.drop count ++ (key, inner) :: rest) []
      rw [List.length_take_of_le before, ← List.append_assoc, List.take_append_drop] at point
      rw [List.drop_append_of_le_length before]
      exact point
    · obtain ⟨more, rfl⟩ := Nat.exists_eq_add_of_le' beyond
      have read : inner.read (surroundings applications visit.depth) moment =
        (.error source, last) := fails
      have point : (producer.advance (surroundings applications visit.depth))^[_] _ = _ :=
        gathers.advance_iterate ((key, inner) :: rest) []
      refine ⟨producer, _, start, invokes, ?_⟩
      rw [Function.iterate_add_apply, Function.iterate_succ_apply', point,
        Producer.advance_gathering, read]
      exact Function.iterate_fixed rfl more
  · exact .called invokes gathers
      ((Producer.call_eq_error_iff (answering_surroundings _ _)).mp calls)

/-- A visit that comes to an error fails in one of these ways. -/
theorem fails_of_result (ends : (visit.result applications).1 = .error error) :
    visit.Fails applications error := by
  obtain ⟨depth, accessor, before⟩ := visit
  have latches := Discipline.latching_surrounded applications depth
  cases accessor with
  | constant id handle => cases ends
  | prototype id producer dependencies => exact Invokes.fails .anew ends
  | lazy id producer dependencies =>
    rw [result, latches.read_lazy, recalling] at ends
    cases known : before.cells id with
    | ready handle =>
      rw [known] at ends
      cases ends
    | failed stored =>
      rw [known] at ends
      cases ends
      exact .remembered known
    | computing =>
      rw [known] at ends
      cases ends
      exact .refused known
    | empty =>
      rw [known] at ends
      apply Invokes.fails (.once known)
      simp only [settling] at ends
      generalize producer.invoke (surroundings applications depth) dependencies
        (before.store id .computing) = outcome at ends ⊢
      obtain ⟨ending, last⟩ := outcome
      cases ending with
      | error stored =>
        cases ends
        rfl
      | value handle => cases ends
      | panic message => cases ends
      | exhausted => cases ends

end Visit

end Wiring
