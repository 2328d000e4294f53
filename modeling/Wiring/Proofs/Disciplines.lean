import Wiring.Proofs.Attempts
import Wiring.Proofs.LazyCells

/-!
Disciplines: what every reading of an accessor keeps. A discipline has an invariant of the memory
and a relation to the memory that the reading leaves. It is enough that it is respected by one
accessor, given that its dependencies and the questions of running factories respect it: then it
is respected at every depth of such questions.
-/

namespace Wiring

variable {α β ε δ : Type}

/-- Two memories differ only in what no reading depends on. -/
structure Memory.Like (before after : Memory) : Prop where
  lazies : after.lazies = before.lazies
  history : after.history = before.history
  accessors : after.accessors = before.accessors

theorem Memory.Like.cells {before after : Memory} (like : before.Like after) :
    after.cells = before.cells := by
  funext id
  rw [Memory.cells, like.lazies, Memory.cells]

theorem Memory.like_write (memory : Memory) (note : Note) :
    memory.Like (memory.write note) :=
  ⟨rfl, rfl, rfl⟩

theorem Memory.like_report (memory : Memory) (event : Event) :
    memory.Like (memory.report event) :=
  ⟨rfl, rfl, rfl⟩

/-- No accessor is unmade. -/
def Memory.Grows (before after : Memory) : Prop := before.accessors ≤ after.accessors

theorem Memory.Grows.refl (memory : Memory) : memory.Grows memory := Nat.le_refl _

theorem Memory.Grows.trans {first second third : Memory} (grows : first.Grows second)
    (onward : second.Grows third) : first.Grows third := Nat.le_trans grows onward

theorem Memory.Like.grows {before after : Memory} (like : before.Like after) :
    before.Grows after := Nat.le_of_eq like.accessors.symm

/-- An invariant of the memory, and what relates a memory to the one that a reading leaves. A
discipline says whether readings may be broken off. -/
structure Discipline where
  holds : Memory → Prop
  leads : Memory → Memory → Prop
  breaks : Prop
  refl : ∀ memory, leads memory memory
  trans : ∀ {first second third}, leads first second → leads second third → leads first third
  like : ∀ {before after : Memory}, before.Like after → holds before →
    holds after ∧ leads before after

namespace Discipline

variable {discipline : Discipline}

/-- The discipline was kept from one memory to another. -/
def Passes (discipline : Discipline) (before after : Memory) : Prop :=
  discipline.holds after ∧ discipline.leads before after

theorem Passes.trans {first second third : Memory} (passes : discipline.Passes first second)
    (onward : discipline.Passes second third) : discipline.Passes first third :=
  ⟨onward.1, discipline.trans passes.2 onward.2⟩

/-- The attempt keeps the discipline whatever its ending, and its values have the property. -/
def Respected (discipline : Discipline) (attempt : Attempt Memory ε α) (gives : α → Prop) : Prop :=
  ∀ before, discipline.holds before → attempt.Yields before
    (fun value after => discipline.Passes before after ∧ gives value)
    (fun _ after => discipline.Passes before after)
    (fun after => discipline.breaks ∧ discipline.Passes before after)

theorem Respected.mono {attempt : Attempt Memory ε α} {gives gives' : α → Prop}
    (respected : discipline.Respected attempt gives)
    (weaker : ∀ value, gives value → gives' value) :
    discipline.Respected attempt gives' := by
  intro before holds
  refine (respected before holds).mono ?_ (fun _ _ kept => kept) (fun _ kept => kept)
  intro value after yielded
  obtain ⟨passes, fits⟩ := yielded
  exact ⟨passes, weaker value fits⟩

/-- The state that a respected attempt leaves is within the discipline. -/
theorem Respected.passes {attempt : Attempt Memory ε α} {gives : α → Prop}
    (respected : discipline.Respected attempt gives) {before : Memory}
    (holds : discipline.holds before) : discipline.Passes before (attempt before).2 :=
  ((respected before holds).mono (fun _ _ kept => kept.1) (fun _ _ kept => kept)
    fun _ kept => kept.2).after

theorem Respected.andThen {first : Attempt Memory ε α} {next : α → Attempt Memory ε β}
    {gives : α → Prop} {last : β → Prop} (respected : discipline.Respected first gives)
    (onward : ∀ value, gives value → discipline.Respected (next value) last) :
    discipline.Respected (first.andThen next) last := by
  intro before holds
  rw [Attempt.yields_andThen]
  refine (respected before holds).mono ?_ (fun _ _ kept => kept) (fun _ kept => kept)
  intro value middle yielded
  obtain ⟨passes, fits⟩ := yielded
  refine (onward value fits middle passes.1).mono ?_ (fun _ _ further => passes.trans further)
    (fun _ further => ⟨further.1, passes.trans further.2⟩)
  intro result after yielded
  obtain ⟨further, fits⟩ := yielded
  exact ⟨passes.trans further, fits⟩

theorem Respected.bind {first : Attempt Memory ε α} {next : α → Attempt Memory ε β}
    {gives : α → Prop} {last : β → Prop} (respected : discipline.Respected first gives)
    (onward : ∀ value, gives value → discipline.Respected (next value) last) :
    discipline.Respected (first >>= next) last :=
  respected.andThen onward

theorem respected_done {gives : α → Prop} {value : α} (fits : gives value) :
    discipline.Respected (Attempt.done value : Attempt Memory ε α) gives :=
  fun before holds => ⟨⟨holds, discipline.refl before⟩, fits⟩

theorem respected_pure {gives : α → Prop} {value : α} (fits : gives value) :
    discipline.Respected (pure value : Attempt Memory ε α) gives :=
  respected_done fits

theorem respected_fail {gives : α → Prop} (error : ε) :
    discipline.Respected (Attempt.fail error : Attempt Memory ε α) gives :=
  fun before holds => ⟨holds, discipline.refl before⟩

theorem respected_panic (breaks : discipline.breaks) {gives : α → Prop} (message : String) :
    discipline.Respected (Attempt.panic message : Attempt Memory ε α) gives :=
  fun before holds => ⟨breaks, holds, discipline.refl before⟩

theorem respected_exhaust (breaks : discipline.breaks) {gives : α → Prop} :
    discipline.Respected (Attempt.exhaust : Attempt Memory ε α) gives :=
  fun before holds => ⟨breaks, holds, discipline.refl before⟩

theorem respected_observe (fact : Memory → α) :
    discipline.Respected (Attempt.observe fact : Attempt Memory ε α) fun _ => True :=
  fun before holds => ⟨⟨holds, discipline.refl before⟩, trivial⟩

theorem respected_change {update : Memory → Memory}
    (like : ∀ memory : Memory, memory.Like (update memory)) :
    discipline.Respected (Attempt.change update : Attempt Memory ε Unit) fun _ => True :=
  fun before holds => ⟨discipline.like (like before) holds, trivial⟩

theorem Respected.mapError {attempt : Attempt Memory ε α} {gives : α → Prop}
    (respected : discipline.Respected attempt gives) (adapt : ε → δ) :
    discipline.Respected (attempt.mapError adapt) gives := by
  intro before holds
  rw [Attempt.yields_mapError]
  exact respected before holds

theorem Respected.outcome {attempt : Attempt Memory ε α} {gives : α → Prop}
    (respected : discipline.Respected attempt gives) :
    discipline.Respected (attempt.outcome : Attempt Memory δ (Except ε α))
      fun outcome => ∀ value, outcome = .ok value → gives value := by
  intro before holds
  rw [Attempt.yields_outcome]
  refine (respected before holds).mono ?_ ?_ (fun _ kept => kept)
  · intro value after yielded
    obtain ⟨passes, fits⟩ := yielded
    refine ⟨passes, ?_⟩
    intro _ same
    cases same
    exact fits
  · intro error after passes
    exact ⟨passes, nofun⟩

/-- The questions of running factories keep the discipline. -/
structure Surrounded (discipline : Discipline) (surroundings : Surroundings) : Prop where
  lookup : ∀ path key, discipline.Respected (surroundings.lookup path key) fun _ => True
  peek : ∀ path key, discipline.Respected (surroundings.peek path key) fun _ => True

variable {surroundings : Surroundings}

/-- A behaviour keeps what its questions keep. -/
theorem Surrounded.respected_run (surrounded : discipline.Surrounded surroundings)
    (breaks : discipline.breaks) (behaviour : Behaviour ConstructionError) :
    discipline.Respected (behaviour.run surroundings) fun _ => True := by
  induction behaviour with
  | give value =>
    apply (respected_observe _).bind
    intro number _
    have counted (memory : Memory) : memory.Like memory.countObject := ⟨rfl, rfl, rfl⟩
    exact (respected_change counted).bind fun _ _ => respected_pure trivial
  | fail error => exact respected_fail error
  | panic message => exact respected_panic breaks message
  | write note next ih =>
    exact (respected_change fun memory => memory.like_write _).bind fun _ _ => ih
  | lookup path key next ih => exact (surrounded.lookup path key).bind fun answer _ => ih answer
  | peek path key next ih => exact (surrounded.peek path key).bind fun answer _ => ih answer

/-- The values are those of the dependencies, each under its key and with its property. -/
def Handed (gives : Key × Accessor → Instance → Prop) (dependencies : List (Key × Accessor))
    (values : List (Key × Instance)) : Prop :=
  List.Forall₂ (fun dependency value => value.1 = dependency.1 ∧ gives dependency value.2)
    dependencies values

/-- The dependencies of an owner keep what each of them keeps. -/
theorem respected_readEach {gives : Key × Accessor → Instance → Prop}
    {dependencies : List (Key × Accessor)}
    (each : ∀ dependency ∈ dependencies,
      discipline.Respected (dependency.2.read surroundings) (gives dependency)) (owner : Key) :
    discipline.Respected (Accessor.readEach surroundings owner dependencies)
      (Handed gives dependencies) := by
  induction dependencies with
  | nil => exact respected_done .nil
  | cons dependency rest ih =>
    have first : discipline.Respected (Accessor.readDependency surroundings owner dependency)
        fun value => value.1 = dependency.1 ∧ gives dependency value.2 := by
      rw [Accessor.readDependency]
      apply ((each dependency List.mem_cons_self).mapError _).andThen
      intro handle fits
      exact respected_done ⟨rfl, fits⟩
    have others := ih fun other member => each other (List.mem_cons_of_mem _ member)
    refine first.andThen fun value fits => others.andThen fun values all => ?_
    exact respected_done (.cons fits all)

/-- An invocation begins, reads its dependencies, is called unless one of them fails, and ends. It
gives a value only when it was called, and the value has the type of the key. -/
theorem Surrounded.invoke_yields (surrounded : discipline.Surrounded surroundings)
    (breaks : discipline.breaks) {gives : Key × Accessor → Instance → Prop}
    {dependencies : List (Key × Accessor)}
    (each : ∀ dependency ∈ dependencies,
      discipline.Respected (dependency.2.read surroundings) (gives dependency))
    (producer : Producer) (before : Memory) (missed reached : Memory → Prop)
    (begun : discipline.holds (before.record (.begun producer.factory)))
    (called : ∀ middle values, discipline.Passes (before.record (.begun producer.factory)) middle →
      Handed gives dependencies values →
      discipline.holds (middle.record (.called producer.factory values)))
    (short : ∀ middle, discipline.Passes (before.record (.begun producer.factory)) middle →
      missed (middle.record (.ended producer.factory)))
    (full : ∀ middle values last,
      discipline.Passes (before.record (.begun producer.factory)) middle →
      Handed gives dependencies values →
      discipline.Passes (middle.record (.called producer.factory values)) last →
      reached (last.record (.ended producer.factory))) :
    (producer.invoke surroundings dependencies).Yields before
      (fun handle after => reached after ∧ handle.type = producer.key.type)
      (fun _ after => missed after ∨ reached after)
      (fun after => discipline.breaks ∧ (missed after ∨ reached after)) := by
  unfold Producer.invoke Producer.working
  rw [Attempt.yields_between, Attempt.yields_andThen]
  refine (respected_readEach each producer.key _ begun).mono ?_
    (fun _ middle passes => .inl (short middle passes))
    (fun middle broken => ⟨broken.1, .inl (short middle broken.2)⟩)
  intro values middle yielded
  obtain ⟨passes, handed⟩ := yielded
  simp only [Producer.call, Attempt.yields_bind, Attempt.yields_change, Attempt.yields_observe]
  have holds := called middle values passes handed
  refine (surrounded.respected_run breaks _ _ holds).mono ?_
    (fun _ last further => .inr (full middle values last passes handed further))
    (fun last broken => ⟨broken.1, .inr (full middle values last passes handed broken.2)⟩)
  intro handle last yielded
  obtain ⟨further, -⟩ := yielded
  have ends := full middle values last passes handed further
  split
  · rename_i right
    exact ⟨ends, right⟩
  · exact .inr ends

/-- The discipline permits the producer to begin, to be called with the values of its dependencies,
and to end. -/
structure Permits (discipline : Discipline) (producer : Producer)
    (gives : Key × Accessor → Instance → Prop) (dependencies : List (Key × Accessor)) : Prop where
  begun : ∀ memory, discipline.holds memory →
    discipline.Passes memory (memory.record (.begun producer.factory))
  called : ∀ memory values, Handed gives dependencies values → discipline.holds memory →
    discipline.Passes memory (memory.record (.called producer.factory values))
  ended : ∀ memory, discipline.holds memory →
    discipline.Passes memory (memory.record (.ended producer.factory))

/-- A permitted invocation keeps the discipline. -/
theorem Permits.respected_invoke {producer : Producer} {gives : Key × Accessor → Instance → Prop}
    {dependencies : List (Key × Accessor)}
    (permits : discipline.Permits producer gives dependencies)
    (surrounded : discipline.Surrounded surroundings) (breaks : discipline.breaks)
    (each : ∀ dependency ∈ dependencies,
      discipline.Respected (dependency.2.read surroundings) (gives dependency)) :
    discipline.Respected (producer.invoke surroundings dependencies)
      fun handle => handle.type = producer.key.type := by
  intro before holds
  have begun := permits.begun before holds
  have yields := surrounded.invoke_yields breaks each producer before (discipline.Passes before)
    (discipline.Passes before) begun.1 ?_ ?_ ?_
  · exact yields.mono (fun _ _ kept => kept) (fun _ _ kept => or_self_iff.mp kept)
      fun _ kept => ⟨kept.1, or_self_iff.mp kept.2⟩
  · intro middle values passes handed
    exact (permits.called middle values handed passes.1).1
  · intro middle passes
    exact begun.trans (passes.trans (permits.ended middle passes.1))
  · intro middle values last passes handed further
    have called := permits.called middle values handed passes.1
    exact begun.trans (passes.trans (called.trans
      (further.trans (permits.ended last further.1))))

/-- The discipline lets a lazy accessor remember what it comes to, and what is remembered has the
property. -/
structure Remembers (discipline : Discipline) (id : AccessorId) (type : ServiceType)
    (gives : Instance → Prop) : Prop where
  ready : ∀ memory handle, discipline.holds memory → memory.cells id = .ready handle →
    gives handle
  stored : ∀ memory cell, discipline.holds memory → cell ≠ .empty →
    (∀ handle, cell = .ready handle → handle.type = type) →
    discipline.Passes memory (memory.store id cell)

/-- The only invocation of a lazy accessor finds it computing, and what comes of it is
remembered. -/
theorem settling_yields {id : AccessorId} {key : Key} {invocation : Evaluation Instance}
    {before : Memory} {given : Instance → Memory → Prop}
    {failed : ConstructionError → Memory → Prop} {broken : Memory → Prop}
    (invoked : invocation.Yields (before.store id .computing)
      (fun handle after =>
        given handle ((after.report (.lazyConstructed key)).store id (.ready handle)))
      (fun error after =>
        failed error ((after.report (.lazyFailed key error)).store id (.failed error)))
      (fun after => broken (after.store id (.failed (.panicked key))) ∧ broken after)) :
    (settling id key invocation).Yields before given failed broken := by
  unfold Attempt.Yields at invoked ⊢
  simp only [settling]
  rcases ends : invocation (before.store id .computing) with ⟨ending, after⟩
  rw [ends] at invoked
  cases ending with
  | value handle => exact invoked
  | error error => exact invoked
  | panic message => exact invoked.1
  | exhausted => exact invoked.2

/-- A reading of a lazy accessor leaves the memory alone, unless it is the first one. -/
theorem recalling_yields {id : AccessorId} {key : Key} {invocation : Evaluation Instance}
    {before : Memory} {given : Instance → Memory → Prop}
    {failed : ConstructionError → Memory → Prop} {broken : Memory → Prop}
    (remembered : ∀ handle, before.cells id = .ready handle → given handle before)
    (refused : ∀ error, before.cells id ≠ .empty → failed error before)
    (settles : before.cells id = .empty →
      (settling id key invocation).Yields before given failed broken) :
    (recalling id key invocation).Yields before given failed broken := by
  unfold Attempt.Yields at *
  cases known : before.cells id with
  | ready handle => simpa only [recalling, known] using remembered handle known
  | failed error => simpa only [recalling, known] using refused error (by simp [known])
  | computing => simpa only [recalling, known] using refused _ (by simp [known])
  | empty => simpa only [recalling, known] using settles known

/-- A reading of a lazy accessor keeps what its invocation keeps. -/
theorem Remembers.respected_recalling {id : AccessorId} {key : Key} {gives : Instance → Prop}
    (remembers : discipline.Remembers id key.type gives) {invocation : Evaluation Instance}
    (invoked : discipline.Respected invocation fun handle => handle.type = key.type)
    (typed : ∀ handle, handle.type = key.type → gives handle) :
    discipline.Respected (recalling id key invocation) gives := by
  intro before holds
  have same : discipline.Passes before before := ⟨holds, discipline.refl before⟩
  apply recalling_yields (fun handle known => ⟨same, remembers.ready before handle holds known⟩)
    (fun _ _ => same)
  intro _
  have computing := remembers.stored before .computing holds nofun nofun
  refine settling_yields ((invoked _ computing.1).mono ?_ ?_ ?_)
  · intro handle after yielded
    obtain ⟨passes, right⟩ := yielded
    have reported := discipline.like (after.like_report (.lazyConstructed key)) passes.1
    refine ⟨computing.trans (passes.trans (Passes.trans reported
      (remembers.stored _ (.ready handle) reported.1 nofun ?_))), typed handle right⟩
    intro _ same
    cases same
    exact right
  · intro error after passes
    have reported := discipline.like (after.like_report (.lazyFailed key error)) passes.1
    exact computing.trans (passes.trans (Passes.trans reported
      (remembers.stored _ (.failed error) reported.1 nofun nofun)))
  · intro after yielded
    obtain ⟨breaks, passes⟩ := yielded
    have stored := remembers.stored _ (.failed (.panicked key)) passes.1 nofun nofun
    exact ⟨⟨breaks, computing.trans (passes.trans stored)⟩, breaks, computing.trans passes⟩

/-- An attempt is respected when it keeps the discipline whatever its ending and its values have
the property. -/
theorem respected_of_passes (breaks : discipline.breaks) {attempt : Attempt Memory ε α}
    {gives : α → Prop}
    (passes : ∀ before, discipline.holds before → discipline.Passes before (attempt before).2)
    (fits : ∀ before value after, attempt before = (.value value, after) → gives value) :
    discipline.Respected attempt gives := by
  intro before holds
  have kept := passes before holds
  unfold Attempt.Yields
  rcases ends : attempt before with ⟨ending, after⟩
  rw [ends] at kept
  cases ending with
  | value value => exact ⟨kept, fits before value after ends⟩
  | error error => exact kept
  | panic message => exact ⟨breaks, kept⟩
  | exhausted => exact ⟨breaks, kept⟩

/-- The discipline that asks for nothing. -/
def free : Discipline where
  holds _ := True
  leads _ _ := True
  breaks := True
  refl _ := trivial
  trans _ _ := trivial
  like _ _ := ⟨trivial, trivial⟩

theorem respected_free (attempt : Attempt Memory ε α) : free.Respected attempt fun _ => True :=
  respected_of_passes trivial (fun _ _ => ⟨trivial, trivial⟩) fun _ _ _ _ => trivial

end Discipline

/-- The value of an invocation has the type of the key, whatever its factory makes. -/
theorem Producer.type_of_invoke {producer : Producer} {surroundings : Surroundings}
    {dependencies : List (Key × Accessor)} {memory after : Memory} {handle : Instance}
    (invokes : producer.invoke surroundings dependencies memory = (.value handle, after)) :
    handle.type = producer.key.type := by
  have surrounded : Discipline.free.Surrounded surroundings :=
    ⟨fun _ _ => Discipline.respected_free _, fun _ _ => Discipline.respected_free _⟩
  have reads (dependency : Key × Accessor) (_ : dependency ∈ dependencies) :
      Discipline.free.Respected (dependency.2.read surroundings) fun _ => True :=
    Discipline.respected_free _
  have yields := surrounded.invoke_yields trivial reads producer memory (fun _ => True)
    (fun _ => True) trivial (fun _ _ _ _ => trivial) (fun _ _ => trivial)
    fun _ _ _ _ _ _ => trivial
  exact (yields.of_value invokes).2

end Wiring
