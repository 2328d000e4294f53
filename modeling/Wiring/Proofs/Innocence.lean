import Wiring.Proofs.Customs
import Wiring.Proofs.Termination

/-!
Innocent factories ask no pool, and report no error that goes back to re-entrance. A reading of an
accessor of innocent factories comes to an end, leaves no cell computing, and never fails because a
value was asked for inside its own construction.
-/

namespace Wiring

/-- It all started with a lazy value that was asked for while its own factory was running. -/
def ConstructionError.IsReentrant (error : ConstructionError) : Prop :=
  ∃ key, error.rootCause = .reentrant key

/-- The behaviour asks no pool, and the error in which it may end is of the given kind. -/
def Behaviour.Alone {ε : Type} (kind : ε → Prop) : Behaviour ε → Prop
  | .give _ => True
  | .fail error => kind error
  | .panic _ => True
  | .write _ next => Alone kind next
  | .lookup _ _ _ => False
  | .peek _ _ _ => False

/-- The behaviour asks no pool, and its error does not go back to re-entrance. -/
def Behaviour.Innocent (behaviour : Behaviour ConstructionError) : Prop :=
  behaviour.Alone fun error => ¬ error.IsReentrant

/-- The factory is innocent in every call, whatever it is handed. -/
def Producer.Innocent (producer : Producer) : Prop :=
  ∀ call handed, (producer.behaviour call ⟨producer.key, handed⟩).Innocent

/-- Every factory behind the accessor is innocent. -/
def Accessor.Innocent (accessor : Accessor) : Prop :=
  ∀ inner, accessor.Within inner → ∀ producer, inner.producer? = some producer →
    producer.Innocent

/-- The cell is not computing, and holds no error that goes back to re-entrance. -/
def Cell.Settled : Cell → Prop
  | .empty => True
  | .computing => False
  | .ready _ => True
  | .failed error => ¬ error.IsReentrant

/-- The cells of accessors of innocent factories are settled. -/
def Custom.innocent : Custom where
  binds := Accessor.Innocent
  allows _ cell := cell.Settled

namespace ConstructionError

theorem not_isReentrant_typeMismatch (key : Key) (expected found : ServiceType) :
    ¬ (ConstructionError.typeMismatch key expected found).IsReentrant := nofun

theorem not_isReentrant_missingDependency (key : Key) (index : Nat) :
    ¬ (ConstructionError.missingDependency key index).IsReentrant := nofun

theorem not_isReentrant_panicked (key : Key) :
    ¬ (ConstructionError.panicked key).IsReentrant := nofun

end ConstructionError

/-- The dependencies of an accessor of innocent factories are such accessors. -/
theorem Accessor.Innocent.dependency {accessor : Accessor} (innocent : accessor.Innocent)
    {dependency : Key × Accessor} (member : dependency ∈ accessor.dependencies) :
    dependency.2.Innocent :=
  fun inner within => innocent inner ((Within.deeper .self member).trans within)

/-- An innocent behaviour comes to an end, whatever surrounds it. -/
theorem Behaviour.Innocent.ends {behaviour : Behaviour ConstructionError}
    (innocent : behaviour.Innocent) (surroundings : Surroundings) :
    (behaviour.run surroundings).Ends := by
  induction behaviour with
  | give value =>
    exact (Attempt.ends_observe _).bind fun _ => (Attempt.ends_change _).bind fun _ =>
      Attempt.ends_done _
  | fail error => exact Attempt.ends_fail error
  | panic message => exact Attempt.ends_panic message
  | write note next ih => exact (Attempt.ends_change _).bind fun _ => ih innocent
  | lookup path key next => exact innocent.elim
  | peek path key next => exact innocent.elim

/-- The factories behind an innocent accessor come to an end. -/
theorem Accessor.Innocent.factoriesEnd {accessor : Accessor} (innocent : accessor.Innocent)
    (surroundings : Surroundings) : accessor.FactoriesEnd surroundings :=
  fun inner within producer makes call handed =>
    (innocent inner within producer makes call handed).ends surroundings

/-- From the memory the attempt keeps the cells of innocent accessors settled, and ends in no error
that goes back to re-entrance. -/
def Attempt.Untangled {α : Type} (known : Accessor → Prop)
    (attempt : Attempt Memory ConstructionError α) (before : Memory) : Prop :=
  attempt.Yields before (fun _ after => Custom.innocent.Keeps known before after)
    (fun error after => ¬ error.IsReentrant ∧ Custom.innocent.Keeps known before after)
    fun after => Custom.innocent.Keeps known before after

namespace Attempt

variable {α β : Type} {known : Accessor → Prop} {before : Memory}

/-- The attempt is untangled also from an earlier memory. -/
theorem Untangled.of_keeps {middle : Memory} {attempt : Attempt Memory ConstructionError α}
    (untangled : attempt.Untangled known middle)
    (keeps : Custom.innocent.Keeps known before middle) :
    attempt.Yields middle (fun _ after => Custom.innocent.Keeps known before after)
      (fun error after => ¬ error.IsReentrant ∧ Custom.innocent.Keeps known before after)
      fun after => Custom.innocent.Keeps known before after :=
  Yields.mono untangled (fun _ _ further => keeps.trans further)
    (fun _ _ further => ⟨further.1, keeps.trans further.2⟩) fun _ further => keeps.trans further

theorem Untangled.andThen {first : Attempt Memory ConstructionError α}
    {next : α → Attempt Memory ConstructionError β} (untangled : first.Untangled known before)
    (onward : ∀ value after, Custom.innocent.Keeps known before after →
      (next value).Untangled known after) : (first.andThen next).Untangled known before := by
  unfold Untangled
  rw [yields_andThen]
  refine Yields.mono untangled ?_ (fun _ _ kept => kept) fun _ kept => kept
  intro value after keeps
  exact (onward value after keeps).of_keeps keeps

theorem Untangled.bind {first : Attempt Memory ConstructionError α}
    {next : α → Attempt Memory ConstructionError β} (untangled : first.Untangled known before)
    (onward : ∀ value after, Custom.innocent.Keeps known before after →
      (next value).Untangled known after) : (first >>= next).Untangled known before :=
  untangled.andThen onward

theorem untangled_change (before : Memory) {update : Memory → Memory}
    (same : (update before).cells = before.cells) :
    (change update : Attempt Memory ConstructionError Unit).Untangled known before :=
  Custom.keeps_of_cells same

theorem untangled_observe (fact : Memory → α) :
    (observe fact : Attempt Memory ConstructionError α).Untangled known before :=
  Custom.keeps_of_cells rfl

theorem untangled_done (value : α) :
    (done value : Attempt Memory ConstructionError α).Untangled known before :=
  Custom.keeps_of_cells rfl

theorem untangled_fail {error : ConstructionError} (clear : ¬ error.IsReentrant) :
    (fail error : Attempt Memory ConstructionError α).Untangled known before :=
  ⟨clear, Custom.keeps_of_cells rfl⟩

end Attempt

section

variable {known : Accessor → Prop} {surroundings : Surroundings} {before : Memory}

theorem Behaviour.Innocent.untangled_run {behaviour : Behaviour ConstructionError}
    (innocent : behaviour.Innocent) :
    (behaviour.run surroundings).Untangled known before := by
  induction behaviour generalizing before with
  | give value =>
    exact (Attempt.untangled_observe _).bind fun _ middle _ =>
      (Attempt.untangled_change middle rfl).bind fun _ _ _ => Attempt.untangled_done _
  | fail error => exact Attempt.untangled_fail innocent
  | panic message => exact Custom.keeps_of_cells rfl
  | write note next ih =>
    exact (Attempt.untangled_change before rfl).bind fun _ _ _ => ih innocent
  | lookup path key next => exact innocent.elim
  | peek path key next => exact innocent.elim

theorem Producer.Innocent.untangled_call {producer : Producer} (innocent : producer.Innocent)
    (values : List (Key × Instance)) :
    (producer.call surroundings values).Untangled known before := by
  refine (Attempt.untangled_change before rfl).bind fun _ middle _ =>
    (Attempt.untangled_observe _).bind fun call _ _ =>
      (innocent call values).untangled_run.bind fun handle _ _ => ?_
  split
  · exact Attempt.untangled_done handle
  · exact Attempt.untangled_fail (ConstructionError.not_isReentrant_typeMismatch _ _ _)

/-- What is within an accessor of innocent factories is such an accessor. -/
theorem Accessor.Innocent.within {outer inner : Accessor} (innocent : outer.Innocent)
    (within : outer.Within inner) : inner.Innocent :=
  fun deeper inside => innocent deeper (within.trans inside)

/-- Every reading of the accessor from a memory that is steady for it is untangled. -/
def Accessor.Untangles (known : Accessor → Prop) (surroundings : Surroundings)
    (accessor : Accessor) : Prop :=
  ∀ before, Custom.innocent.Steady before accessor →
    (accessor.read surroundings).Untangled known before

namespace Family

/-- The dependencies of an owner are read one after the other, and each reading leaves a memory that
is steady for those that follow. -/
theorem untangled_readEach (family : Family known) {dependencies : List (Key × Accessor)}
    (each : ∀ dependency ∈ dependencies, known dependency.2 ∧ dependency.2.Innocent ∧
      dependency.2.Untangles known surroundings)
    (owner : Key)
    (steady : ∀ dependency ∈ dependencies, Custom.innocent.Steady before dependency.2) :
    (Accessor.readEach surroundings owner dependencies).Untangled known before := by
  induction dependencies generalizing before with
  | nil => exact Attempt.untangled_done []
  | cons dependency rest ih =>
    obtain ⟨key, accessor⟩ := dependency
    obtain ⟨-, -, untangles⟩ := each _ List.mem_cons_self
    have first : (Accessor.readDependency surroundings owner (key, accessor)).Untangled known
        before := by
      unfold Accessor.readDependency Attempt.Untangled
      rw [Attempt.yields_andThen, Attempt.yields_mapError]
      -- A failed dependency has the root cause of the failure behind it.
      exact untangles before (steady _ List.mem_cons_self)
    rw [Accessor.readEach]
    refine first.andThen fun value middle keeps => ?_
    have others := @ih middle (fun other member => each other (List.mem_cons_of_mem _ member)) ?_
    · exact others.andThen fun _ _ _ => Attempt.untangled_done _
    · intro other member
      obtain ⟨among, innocent, -⟩ := each other (List.mem_cons_of_mem _ member)
      exact keeps.steady family among (fun _ within => innocent.within within)
        (steady other (List.mem_cons_of_mem _ member))

/-- An invocation of an innocent factory is untangled when the readings of its dependencies are. -/
theorem untangled_invoke (family : Family known) {producer : Producer}
    (innocent : producer.Innocent) {dependencies : List (Key × Accessor)}
    (each : ∀ dependency ∈ dependencies, known dependency.2 ∧ dependency.2.Innocent ∧
      dependency.2.Untangles known surroundings)
    (steady : ∀ dependency ∈ dependencies, Custom.innocent.Steady before dependency.2) :
    (producer.invoke surroundings dependencies).Untangled known before := by
  unfold Producer.invoke Producer.working Attempt.Untangled
  rw [Attempt.yields_between]
  -- The moments at the beginning and at the end change no cell.
  have begun (dependency : Key × Accessor) (member : dependency ∈ dependencies) :
      Custom.innocent.Steady (before.record (.begun producer.factory)) dependency.2 :=
    steady dependency member
  exact (family.untangled_readEach each producer.key begun).andThen fun values _ _ =>
    innocent.untangled_call values

/-- The only invocation of a lazy accessor is untangled: it comes to an end, so that the cell does
not stay computing. -/
theorem untangled_settling (family : Family known) {id : AccessorId} {producer : Producer}
    {dependencies : List (Key × Accessor)} (member : known (.lazy id producer dependencies))
    {key : Key} {invocation : Evaluation Instance}
    (untangled : invocation.Untangled known (before.store id .computing))
    (ends : invocation.Ends) :
    (settling id key invocation).Untangled known before := by
  have stored (cell : Cell) (settled : cell.Settled) {after : Memory}
      (keeps : Custom.innocent.Keeps known (before.store id .computing) after) :
      Custom.innocent.Keeps known before (after.store id cell) :=
    Custom.keeps_store family member settled keeps
  have here := ends (before.store id .computing)
  unfold Attempt.Untangled Attempt.Yields at *
  simp only [settling]
  rcases found : invocation (before.store id .computing) with ⟨ending, after⟩
  rw [found] at untangled here
  cases ending with
  | value handle => exact stored (.ready handle) trivial untangled
  | error error => exact ⟨untangled.1, stored (.failed error) untangled.1 untangled.2⟩
  | panic message =>
    exact stored (.failed (.panicked key)) (ConstructionError.not_isReentrant_panicked key)
      untangled
  | exhausted => exact absurd rfl here

/-- Every reading of an accessor of innocent factories is untangled. -/
theorem untangles (family : Family known) {surroundings : Surroundings}
    (latches : Discipline.latching.Surrounded surroundings) {accessor : Accessor}
    (member : known accessor) (innocent : accessor.Innocent) :
    accessor.Untangles known surroundings := by
  induction accessor using Accessor.induction_on_dependencies with
  | step accessor ih =>
    have each (dependency : Key × Accessor) (among : dependency ∈ accessor.dependencies) :
        known dependency.2 ∧ dependency.2.Innocent ∧
          dependency.2.Untangles known surroundings := by
      have within := family.dependencies accessor member dependency among
      exact ⟨within, innocent.dependency among,
        ih dependency among within (innocent.dependency among)⟩
    intro before steady
    cases accessor with
    | constant id handle => exact Attempt.untangled_done handle
    | prototype id producer dependencies =>
      exact family.untangled_invoke (innocent _ .self producer rfl) each
        fun dependency among inner within => steady inner
          ((Accessor.Within.deeper .self among).trans within)
    | lazy id producer dependencies =>
      have settled := steady _ .self
      rw [latches.read_lazy]
      unfold Attempt.Untangled Attempt.Yields recalling
      change (before.cells id).Settled at settled
      cases remembered : before.cells id with
      | ready handle => exact Custom.keeps_of_cells rfl
      | failed error =>
        rw [remembered] at settled
        exact ⟨settled, Custom.keeps_of_cells rfl⟩
      | computing =>
        rw [remembered] at settled
        exact settled.elim
      | empty =>
        have own : producer.Innocent := innocent _ .self producer rfl
        refine family.untangled_settling member (family.untangled_invoke own each ?_) ?_
        · intro dependency among
          exact Custom.steady_store family member steady among .computing
        · exact Producer.invoke_ends
            (fun dependency among =>
              Accessor.read_ends ((innocent.dependency among).factoriesEnd surroundings))
            fun call handed => (own call handed).ends surroundings

end Family

end

/-- Every reading of an accessor of innocent factories leaves their cells settled. -/
theorem Custom.lawful_innocent : Custom.innocent.Lawful True where
  dependency _ innocent _ member := innocent.dependency member
  empty _ := trivial
  reads family _ member innocent _ latches before steady :=
    Attempt.Yields.mono (family.untangles latches member innocent before steady)
      (fun _ _ keeps => keeps) (fun _ _ kept => kept.2) fun _ keeps => ⟨trivial, keeps⟩

end Wiring
