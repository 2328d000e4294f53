import Wiring.Proofs.TypeSafety

/-!
The outcomes of pure factories. A pure factory ends in a value or an error that the values of its
dependencies decide, and asks nobody. So an accessor of pure factories has an outcome of its own,
by recursion over its dependencies, and every reading comes to it: at once, for the first time, or
from what a lazy accessor remembers.
-/

namespace Wiring

/-- What a production comes to, whatever object it makes. -/
abbrev Outcome : Type := Except ConstructionError Value

/-- The value or the error in which a behaviour ends, when it neither panics nor asks anything. -/
def Behaviour.verdict? {ε : Type} : Behaviour ε → Option (Except ε Value)
  | .give value => some (.ok value)
  | .fail error => some (.error error)
  | .panic _ => none
  | .write _ next => verdict? next
  | .lookup _ _ _ => none
  | .peek _ _ _ => none

/-- In every call for the owner, the values that are handed over under the keys decide the value or
the error in which a behaviour ends. -/
def Behaviour.Determined (behaviour : Nat → Dependencies → Behaviour ConstructionError)
    (owner : Key) (keys : List Key) : Prop :=
  ∃ outcome : List Value → Outcome, ∀ call handed, Handover keys handed →
    (behaviour call ⟨owner, handed⟩).verdict? = some (outcome (handed.map fun pair => pair.2.value))

/-- The handed values without their objects. -/
def plain (handed : List (Key × Instance)) : List (Key × Value) :=
  handed.map fun pair => (pair.1, pair.2.value)

/-- The same values as objects that nobody else has. -/
def fresh (values : List (Key × Value)) : List (Key × Instance) :=
  values.map fun pair => (pair.1, ⟨.made 0, pair.2⟩)

/-- A value counts only when it has the type of the key. -/
def Outcome.checked (key : Key) : Outcome → Outcome
  | .error error => .error error
  | .ok value =>
    if value.type = key.type then .ok value
    else .error (.typeMismatch key key.type value.type)

namespace Producer

/-- What the factory makes of plain values in its first call. -/
def judge (producer : Producer) (values : List (Key × Value)) : Outcome :=
  match (producer.behaviour 1 ⟨producer.key, fresh values⟩).verdict? with
  | none => .error (.panicked producer.key)
  | some verdict => Outcome.checked producer.key verdict

/-- The values of the outcomes, or the failure of the owner for the first that is an error. -/
def gather (owner : Key) : List (Key × Outcome) → Except ConstructionError (List (Key × Value))
  | [] => .ok []
  | (key, .error error) :: _ => .error (.dependency owner key error)
  | (key, .ok value) :: rest => (gather owner rest).map fun values => (key, value) :: values

/-- What a producer comes to when its dependencies come to the given outcomes. -/
def outcome (producer : Producer) (given : List (Key × Outcome)) : Outcome :=
  (gather producer.key given).bind producer.judge

end Producer

mutual

/-- What an accessor of pure factories comes to. -/
def Accessor.outcome : Accessor → Outcome
  | .constant _ handle => .ok handle.value
  | .lazy _ producer dependencies => producer.outcome (Accessor.outcomes dependencies)
  | .prototype _ producer dependencies => producer.outcome (Accessor.outcomes dependencies)

/-- What the dependencies come to, each under its key. -/
def Accessor.outcomes : List (Key × Accessor) → List (Key × Outcome)
  | [] => []
  | dependency :: rest => Accessor.outcomeUnder dependency :: Accessor.outcomes rest

/-- What one dependency comes to, under its key. -/
def Accessor.outcomeUnder : Key × Accessor → Key × Outcome
  | (key, accessor) => (key, accessor.outcome)

end

/-- A cell tells nothing yet, or else what the outcome is. -/
def Cell.Tells (outcome : Outcome) : Cell → Prop
  | .empty => True
  | .computing => False
  | .ready handle => outcome = .ok handle.value
  | .failed error => outcome = .error error

namespace Accessor

/-- Every factory behind the accessor is determined by the values of its dependencies. -/
def Pure (accessor : Accessor) : Prop :=
  ∀ inner, accessor.Within inner → ∀ producer, inner.producer? = some producer →
    Behaviour.Determined producer.behaviour producer.key (inner.dependencies.map Prod.fst)

/-- What the memory remembers of the accessor is its outcome. -/
def Faithful (accessor : Accessor) (memory : Memory) : Prop :=
  (memory.cells accessor.id).Tells accessor.outcome

/-- What the memory remembers of the accessor, and of all that it depends on, are the outcomes. -/
def Steady (accessor : Accessor) (memory : Memory) : Prop :=
  ∀ inner, accessor.Within inner → inner.Faithful memory

theorem outcomes_eq_map (dependencies : List (Key × Accessor)) :
    outcomes dependencies =
      dependencies.map fun dependency => (dependency.1, dependency.2.outcome) := by
  induction dependencies with
  | nil => rfl
  | cons dependency rest ih =>
    obtain ⟨key, accessor⟩ := dependency
    rw [outcomes, ih]
    rfl

end Accessor

/-- A checked value has the type of the key. -/
theorem Outcome.type_of_checked {key : Key} {outcome : Outcome} {value : Value}
    (ends : outcome.checked key = .ok value) : value.type = key.type := by
  cases outcome with
  | error error => cases ends
  | ok other =>
    by_cases right : other.type = key.type
    · rw [checked, if_pos right] at ends
      obtain rfl := Except.ok.inj ends
      exact right
    · rw [checked, if_neg right] at ends
      cases ends

/-- The outcome of a producer has the type of its key. -/
theorem Producer.type_of_outcome {producer : Producer} {given : List (Key × Outcome)}
    {value : Value}
    (ends : producer.outcome given = .ok value) : value.type = producer.key.type := by
  unfold outcome at ends
  cases gathered : gather producer.key given with
  | error error =>
    rw [gathered] at ends
    cases ends
  | ok values =>
    rw [gathered] at ends
    change producer.judge values = .ok value at ends
    unfold judge at ends
    split at ends
    · cases ends
    · exact Outcome.type_of_checked ends

/-- The outcome of an accessor has the type of the accessor. -/
theorem Accessor.type_of_outcome {accessor : Accessor} {value : Value}
    (ends : accessor.outcome = .ok value) : value.type = accessor.type := by
  cases accessor with
  | constant id handle =>
    obtain rfl := Except.ok.inj ends
    rfl
  | lazy id producer dependencies => exact Producer.type_of_outcome ends
  | prototype id producer dependencies => exact Producer.type_of_outcome ends

namespace Accessor

theorem Within.trans {outer middle inner : Accessor} (within : outer.Within middle)
    (deeper : middle.Within inner) : outer.Within inner := by
  induction deeper with
  | self => exact within
  | deeper _ member ih => exact .deeper ih member

/-- What is within an accessor is the accessor itself or within one of its dependencies. -/
theorem Within.cases {outer inner : Accessor} (within : outer.Within inner) :
    inner = outer ∨ ∃ dependency ∈ outer.dependencies, dependency.2.Within inner := by
  induction within with
  | self => exact .inl rfl
  | deeper _ member ih =>
    rcases ih with rfl | ⟨dependency, among, inside⟩
    · exact .inr ⟨_, member, .self⟩
    · exact .inr ⟨dependency, among, .deeper inside member⟩

/-- What is within an accessor is not larger. -/
theorem Within.sizeOf_le {outer inner : Accessor} (within : outer.Within inner) :
    sizeOf inner ≤ sizeOf outer := by
  induction within with
  | self => exact Nat.le_refl _
  | deeper _ member ih => exact (Nat.le_of_lt (sizeOf_dependency member)).trans ih

/-- The dependencies of a pure accessor are pure. -/
theorem Pure.dependency {accessor : Accessor} (pure : accessor.Pure) {dependency : Key × Accessor}
    (member : dependency ∈ accessor.dependencies) : dependency.2.Pure :=
  fun inner within => pure inner ((Within.deeper .self member).trans within)

/-- An accessor is pure when its factory is determined and its dependencies are pure. -/
theorem Pure.of_dependencies {accessor : Accessor}
    (determined : ∀ producer, accessor.producer? = some producer →
      Behaviour.Determined producer.behaviour producer.key (accessor.dependencies.map Prod.fst))
    (below : ∀ dependency ∈ accessor.dependencies, dependency.2.Pure) : accessor.Pure := by
  intro inner within
  rcases within.cases with rfl | ⟨dependency, member, inside⟩
  · exact determined
  · exact below dependency member inner inside

end Accessor

/-- Accessors that come with their dependencies, with numbers of their own, and with dependencies of
the types of their keys. -/
structure Family (known : Accessor → Prop) : Prop where
  dependencies : ∀ accessor, known accessor →
    ∀ dependency ∈ accessor.dependencies, known dependency.2
  unique : ∀ left right, known left → known right → left.id = right.id → left = right
  linked : ∀ accessor, known accessor → ∀ dependency ∈ accessor.dependencies,
    dependency.2.type = dependency.1.type

/-- The accessors of an arena that come with their dependencies are a family. -/
theorem Arena.family {spent : Nat → Prop} {known : Accessor → Prop} {memory : Memory}
    {applications : List Application} (arena : Arena spent known memory)
    (closed : Closed applications known) : Family known :=
  ⟨closed.dependencies, arena.unique, arena.linked⟩

/-- What the first memory remembers of pure accessors rightly, the second one does. -/
def Memory.Keeps (known : Accessor → Prop) (before after : Memory) : Prop :=
  ∀ accessor, known accessor → accessor.Pure → accessor.Faithful before → accessor.Faithful after

namespace Memory

variable {known : Accessor → Prop} {before middle after : Memory}

theorem Keeps.trans (keeps : Keeps known before middle) (onward : Keeps known middle after) :
    Keeps known before after :=
  fun accessor member pure faithful =>
    onward accessor member pure (keeps accessor member pure faithful)

theorem keeps_of_cells (same : after.cells = before.cells) : Keeps known before after := by
  intro accessor _ _ faithful
  unfold Accessor.Faithful
  rw [same]
  exact faithful

/-- What was steady stays so. -/
theorem Keeps.steady (keeps : Keeps known before after) (family : Family known)
    {accessor : Accessor} (member : known accessor) (pure : accessor.Pure)
    (steady : accessor.Steady before) : accessor.Steady after :=
  fun inner within => keeps inner (within.of_closed family.dependencies member)
    (fun other deeper => pure other (within.trans deeper)) (steady inner within)

end Memory

namespace Behaviour

/-- A behaviour that ends in a verdict does so whatever surrounds it, and changes no cell. -/
theorem yields_run {behaviour : Behaviour ConstructionError} {verdict : Outcome}
    (ends : behaviour.verdict? = some verdict) (surroundings : Surroundings) (before : Memory) :
    (behaviour.run surroundings).Yields before
      (fun handle after => verdict = .ok handle.value ∧ after.cells = before.cells)
      (fun error after => verdict = .error error ∧ after.cells = before.cells)
      fun _ => False := by
  induction behaviour generalizing before with
  | give value =>
    obtain rfl := Option.some.inj ends
    exact ⟨rfl, rfl⟩
  | fail error =>
    obtain rfl := Option.some.inj ends
    exact ⟨rfl, rfl⟩
  | panic message => cases ends
  | write note next ih =>
    rw [run, Attempt.yields_bind, Attempt.yields_change]
    exact ih ends _
  | lookup path key next => cases ends
  | peek path key next => cases ends

/-- Fresh objects of handed values are handed over as well. -/
theorem handover_fresh {keys : List Key} {handed : List (Key × Instance)}
    (handover : Handover keys handed) : Handover keys (fresh (plain handed)) := by
  unfold Handover fresh plain at *
  rw [List.map_map, List.forall₂_map_right_iff]
  exact handover

/-- A determined behaviour ends, in every call, in what its producer makes of the plain values. -/
theorem Determined.exists_verdict {producer : Producer} {keys : List Key}
    (determined : Determined producer.behaviour producer.key keys)
    {handed : List (Key × Instance)} (handover : Handover keys handed) (call : Nat) :
    ∃ verdict, (producer.behaviour call ⟨producer.key, handed⟩).verdict? = some verdict ∧
      producer.judge (plain handed) = Outcome.checked producer.key verdict := by
  obtain ⟨outcome, decides⟩ := determined
  refine ⟨_, decides call handed handover, ?_⟩
  have first := decides 1 _ (handover_fresh handover)
  have same : (fresh (plain handed)).map (fun pair => pair.2.value) =
      handed.map fun pair => pair.2.value := by
    simp [fresh, plain]
  rw [Producer.judge, first, same]

end Behaviour

namespace Producer

variable {producer : Producer}

/-- A call of a determined factory comes to what the factory makes of the plain values. -/
theorem yields_call {keys : List Key}
    (determined : Behaviour.Determined producer.behaviour producer.key keys)
    {handed : List (Key × Instance)} (handover : Handover keys handed) (surroundings : Surroundings)
    (before : Memory) :
    (producer.call surroundings handed).Yields before
      (fun handle after => producer.judge (plain handed) = .ok handle.value ∧
        after.cells = before.cells)
      (fun error after => producer.judge (plain handed) = .error error ∧
        after.cells = before.cells)
      fun _ => False := by
  simp only [call, Attempt.yields_bind, Attempt.yields_change, Attempt.yields_observe]
  generalize Memory.calls _ producer.factory = number
  obtain ⟨verdict, ends, judged⟩ := determined.exists_verdict handover number
  refine (Behaviour.yields_run ends surroundings _).mono ?_ ?_ (fun _ never => never)
  · intro handle after yielded
    obtain ⟨rfl, same⟩ := yielded
    split
    · rename_i right
      exact ⟨judged.trans (if_pos right), same⟩
    · rename_i wrong
      exact ⟨judged.trans (if_neg wrong), same⟩
  · intro error after yielded
    obtain ⟨rfl, same⟩ := yielded
    exact ⟨judged, same⟩

end Producer

namespace Accessor

/-- Every reading of the accessor comes to its outcome, and keeps what the memory remembers
rightly. -/
def Settles (known : Accessor → Prop) (surroundings : Surroundings) (accessor : Accessor) : Prop :=
  ∀ before, accessor.Steady before → (accessor.read surroundings).Yields before
    (fun handle after => accessor.outcome = .ok handle.value ∧ Memory.Keeps known before after)
    (fun error after => accessor.outcome = .error error ∧ Memory.Keeps known before after)
    fun _ => False

end Accessor

namespace Family

variable {known : Accessor → Prop} {surroundings : Surroundings}

/-- The dependencies of an owner come to their outcomes, up to the first that is an error. -/
theorem yields_readEach (family : Family known) {dependencies : List (Key × Accessor)}
    (each : ∀ dependency ∈ dependencies, known dependency.2 ∧ dependency.2.Pure ∧
      dependency.2.type = dependency.1.type ∧ dependency.2.Settles known surroundings)
    (owner : Key) {before : Memory}
    (steady : ∀ dependency ∈ dependencies, dependency.2.Steady before) :
    (Accessor.readEach surroundings owner dependencies).Yields before
      (fun handed after =>
        Producer.gather owner (Accessor.outcomes dependencies) = .ok (plain handed) ∧
        Handover (dependencies.map Prod.fst) handed ∧ Memory.Keeps known before after)
      (fun error after =>
        Producer.gather owner (Accessor.outcomes dependencies) = .error error ∧
        Memory.Keeps known before after)
      fun _ => False := by
  induction dependencies generalizing before with
  | nil => exact ⟨rfl, .nil, Memory.keeps_of_cells rfl⟩
  | cons dependency rest ih =>
    obtain ⟨key, accessor⟩ := dependency
    obtain ⟨-, -, type, settles⟩ := each _ List.mem_cons_self
    simp only [Accessor.readEach, Accessor.readDependency, Attempt.yields_andThen,
      Attempt.yields_done, Attempt.yields_mapError, Accessor.outcomes, Accessor.outcomeUnder]
    refine (settles before (steady _ List.mem_cons_self)).mono ?_ ?_ (fun _ never => never)
    · intro handle middle yielded
      obtain ⟨here, keeps⟩ := yielded
      have later (other : Key × Accessor) (member : other ∈ rest) : other.2.Steady middle := by
        obtain ⟨among, pure, -, -⟩ := each other (List.mem_cons_of_mem _ member)
        exact keeps.steady family among pure (steady other (List.mem_cons_of_mem _ member))
      refine (ih (fun other member => each other (List.mem_cons_of_mem _ member)) later).mono ?_ ?_
        (fun _ never => never)
      · intro handed after yielded
        obtain ⟨gathered, handover, onward⟩ := yielded
        refine ⟨?_, .cons ⟨rfl, ?_⟩ handover, keeps.trans onward⟩
        · rw [here, Producer.gather, gathered]
          rfl
        · exact (Accessor.type_of_outcome here).trans type
      · intro error after yielded
        obtain ⟨gathered, onward⟩ := yielded
        refine ⟨?_, keeps.trans onward⟩
        rw [here, Producer.gather, gathered]
        rfl
    · intro error after yielded
      obtain ⟨here, keeps⟩ := yielded
      refine ⟨?_, keeps⟩
      rw [here, Producer.gather]

/-- An invocation of a determined factory comes to what its dependencies decide. -/
theorem yields_invoke (family : Family known) {producer : Producer}
    {dependencies : List (Key × Accessor)}
    (determined : Behaviour.Determined producer.behaviour producer.key
      (dependencies.map Prod.fst))
    (each : ∀ dependency ∈ dependencies, known dependency.2 ∧ dependency.2.Pure ∧
      dependency.2.type = dependency.1.type ∧ dependency.2.Settles known surroundings)
    {before : Memory} (steady : ∀ dependency ∈ dependencies, dependency.2.Steady before) :
    (producer.invoke surroundings dependencies).Yields before
      (fun handle after => producer.outcome (Accessor.outcomes dependencies) = .ok handle.value ∧
        Memory.Keeps known before after)
      (fun error after => producer.outcome (Accessor.outcomes dependencies) = .error error ∧
        Memory.Keeps known before after)
      fun _ => False := by
  unfold Producer.invoke Producer.working
  rw [Attempt.yields_between, Attempt.yields_andThen]
  -- The moments at the beginning and at the end change no cell.
  have begun (dependency : Key × Accessor) (member : dependency ∈ dependencies) :
      dependency.2.Steady (before.record (.begun producer.factory)) :=
    steady dependency member
  refine (family.yields_readEach each producer.key begun).mono ?_ ?_ (fun _ never => never)
  · intro handed middle yielded
    obtain ⟨gathered, handover, keeps⟩ := yielded
    have comes : producer.outcome (Accessor.outcomes dependencies) =
        producer.judge (plain handed) := by
      rw [Producer.outcome, gathered]
      rfl
    refine (Producer.yields_call determined handover surroundings middle).mono ?_ ?_
      (fun _ never => never)
    · intro handle last yielded
      obtain ⟨judged, same⟩ := yielded
      exact ⟨comes.trans judged, keeps.trans (Memory.keeps_of_cells same)⟩
    · intro error last yielded
      obtain ⟨judged, same⟩ := yielded
      exact ⟨comes.trans judged, keeps.trans (Memory.keeps_of_cells same)⟩
  · intro error middle yielded
    obtain ⟨gathered, keeps⟩ := yielded
    refine ⟨?_, keeps⟩
    rw [Producer.outcome, gathered]
    rfl

/-- An accessor that remembers its outcome keeps what is remembered rightly. -/
theorem keeps_store (family : Family known) {accessor : Accessor} (member : known accessor)
    {before after : Memory} {cell : Cell} (tells : cell.Tells accessor.outcome)
    (keeps : Memory.Keeps known (before.store accessor.id .computing) after) :
    Memory.Keeps known before (after.store accessor.id cell) := by
  intro other among pure faithful
  unfold Accessor.Faithful at *
  by_cases same : other.id = accessor.id
  · obtain rfl := family.unique other accessor among member same
    rw [Memory.store_cells_self]
    exact tells
  · rw [Memory.store_cells_of_ne _ _ same]
    apply keeps other among pure
    unfold Accessor.Faithful
    rw [Memory.store_cells_of_ne _ _ same]
    exact faithful

/-- What one accessor remembers does not change what its dependencies come to. -/
theorem steady_store (family : Family known) {accessor : Accessor} (member : known accessor)
    {before : Memory} (steady : accessor.Steady before) {dependency : Key × Accessor}
    (among : dependency ∈ accessor.dependencies) (cell : Cell) :
    dependency.2.Steady (before.store accessor.id cell) := by
  intro inner within
  -- A dependency is smaller than the accessor, so it is another one.
  have smaller : sizeOf inner < sizeOf accessor :=
    within.sizeOf_le.trans_lt (Accessor.sizeOf_dependency among)
  have different : inner.id ≠ accessor.id := by
    intro same
    have inside := within.of_closed family.dependencies
      (family.dependencies _ member dependency among)
    obtain rfl := family.unique inner _ inside member same
    exact absurd smaller (Nat.lt_irrefl _)
  unfold Accessor.Faithful
  rw [Memory.store_cells_of_ne _ _ different]
  exact steady inner ((Accessor.Within.deeper .self among).trans within)

/-- Every reading of a pure accessor comes to its outcome. -/
theorem settles (family : Family known) {surroundings : Surroundings}
    (latches : Discipline.latching.Surrounded surroundings) {accessor : Accessor}
    (member : known accessor) (pure : accessor.Pure) :
    accessor.Settles known surroundings := by
  induction accessor using Accessor.induction_on_dependencies with
  | step accessor ih =>
    have each (dependency : Key × Accessor) (among : dependency ∈ accessor.dependencies) :
        known dependency.2 ∧ dependency.2.Pure ∧ dependency.2.type = dependency.1.type ∧
          dependency.2.Settles known surroundings := by
      have within := family.dependencies accessor member dependency among
      exact ⟨within, pure.dependency among, family.linked accessor member dependency among,
        ih dependency among within (pure.dependency among)⟩
    have below {before : Memory} (steady : accessor.Steady before) (dependency : Key × Accessor)
        (among : dependency ∈ accessor.dependencies) : dependency.2.Steady before :=
      fun inner within => steady inner ((Accessor.Within.deeper .self among).trans within)
    intro before steady
    cases accessor with
    | constant id handle => exact ⟨rfl, Memory.keeps_of_cells rfl⟩
    | prototype id producer dependencies =>
      exact family.yields_invoke (pure _ .self producer rfl) each (below steady)
    | lazy id producer dependencies =>
      have told := steady _ .self
      unfold Accessor.Faithful at told
      rw [latches.read_lazy]
      unfold Attempt.Yields recalling
      change (Cell.Tells _ (before.cells id)) at told
      cases remembered : before.cells id with
      | ready handle =>
        rw [remembered] at told
        exact ⟨told, Memory.keeps_of_cells rfl⟩
      | failed error =>
        rw [remembered] at told
        exact ⟨told, Memory.keeps_of_cells rfl⟩
      | computing =>
        rw [remembered] at told
        exact told.elim
      | empty =>
        have apart (dependency : Key × Accessor) (among : dependency ∈ dependencies) :
            dependency.2.Steady (before.store id .computing) :=
          family.steady_store member steady among .computing
        refine Discipline.settling_yields
          ((family.yields_invoke (pure _ .self producer rfl) each apart).mono
            ?_ ?_ (fun _ never => never.elim))
        · intro handle after yielded
          obtain ⟨ends, keeps⟩ := yielded
          exact ⟨ends, family.keeps_store member ends keeps⟩
        · intro error after yielded
          obtain ⟨ends, keeps⟩ := yielded
          exact ⟨ends, family.keeps_store member ends keeps⟩

end Family

end Wiring
