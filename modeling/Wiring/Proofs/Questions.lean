import Wiring.Building
import Wiring.Proofs.Latching

/-!
From one accessor to all questions. A discipline that each accessor respects, given that its
dependencies do, is respected by every question to a pool and by every bundle that finishes.
-/

namespace Wiring

namespace Accessor

/-- The type of the values of an accessor. -/
def type : Accessor → ServiceType
  | .constant _ handle => handle.type
  | .lazy _ producer _ => producer.key.type
  | .prototype _ producer _ => producer.key.type

/-- The factory that is at work behind an accessor. -/
def producer? : Accessor → Option Producer
  | .constant _ _ => none
  | .lazy _ producer _ => some producer
  | .prototype _ producer _ => some producer

theorem value_apply (applications : List Application) (accessor : Accessor) (memory : Memory) :
    accessor.value applications memory =
      accessor.read (surroundings applications memory.depth) memory := rfl

end Accessor

/-- The accessors of a family come with their dependencies, and it holds every accessor that is
visible in a pool. -/
structure Closed (applications : List Application) (known : Accessor → Prop) : Prop where
  dependencies : ∀ accessor, known accessor →
    ∀ dependency ∈ accessor.dependencies, known dependency.2
  visible : ∀ path pool key entry, PoolPath.resolve? path applications = some pool →
    pool.find? key = some entry → known entry.accessor

namespace Discipline

variable {discipline : Discipline} {applications : List Application} {known : Accessor → Prop}
  {gives : Accessor → Instance → Prop}

theorem respected_peekIn (path : PoolPath) (key : Key) :
    discipline.Respected (peekIn applications path key) fun _ => True :=
  respected_observe _

/-- A lookup keeps what the reading of visible accessors keeps. -/
theorem respected_lookupIn {read : Accessor → Evaluation Instance}
    (closed : Closed applications known)
    (reads : ∀ accessor, known accessor → discipline.Respected (read accessor) (gives accessor))
    (path : PoolPath) (key : Key) :
    discipline.Respected (lookupIn applications read path key) fun _ => True := by
  unfold lookupIn
  cases place : path.resolve? applications with
  | none => exact respected_done trivial
  | some pool =>
    dsimp only
    cases found : pool.find? key with
    | none => exact respected_done trivial
    | some entry =>
      have reading := reads entry.accessor (closed.visible path pool key entry place found)
      apply ((reading.mapError LookupError.construction).outcome).andThen
      intro answer _
      exact respected_done trivial

/-- Among the applications the questions of factories, and the readings of the accessors of a
family, keep the discipline at every depth. -/
structure Pervades (discipline : Discipline) (applications : List Application)
    (known : Accessor → Prop) (gives : Accessor → Instance → Prop) : Prop where
  surrounded : ∀ depth, discipline.Surrounded (surroundings applications depth)
  reads : ∀ depth accessor, known accessor →
    discipline.Respected (accessor.read (surroundings applications depth)) (gives accessor)

/-- It is enough that readings keep the discipline where the questions of factories do. -/
theorem pervades_of_reads (breaks : discipline.breaks) (closed : Closed applications known)
    (reads : ∀ depth, discipline.Surrounded (surroundings applications depth) →
      ∀ accessor, known accessor →
        discipline.Respected (accessor.read (surroundings applications depth)) (gives accessor)) :
    discipline.Pervades applications known gives := by
  have surrounded (depth : Nat) : discipline.Surrounded (surroundings applications depth) := by
    induction depth with
    | zero => exact ⟨fun _ _ => respected_exhaust breaks, respected_peekIn⟩
    | succ depth ih => exact ⟨respected_lookupIn closed (reads depth ih), respected_peekIn⟩
  exact ⟨surrounded, fun depth => reads depth (surrounded depth)⟩

theorem closed_all (applications : List Application) : Closed applications fun _ => True :=
  ⟨fun _ _ _ _ => trivial, fun _ _ _ _ _ _ => trivial⟩

/-- All readings among the applications, at every depth, latch all cells. -/
theorem latching_pervades (applications : List Application) :
    latching.Pervades applications (fun _ => True) fun _ _ => True :=
  pervades_of_reads trivial (closed_all applications) fun _ surrounded accessor _ =>
    surrounded.latching_read accessor

theorem latching_surrounded (applications : List Application) (depth : Nat) :
    latching.Surrounded (surroundings applications depth) :=
  (latching_pervades applications).surrounded depth

/-- Each accessor of the family keeps the discipline, given that its dependencies and the questions
of factories keep it. -/
def Governs (discipline : Discipline) (known : Accessor → Prop)
    (gives : Accessor → Instance → Prop) : Prop :=
  ∀ accessor, known accessor → ∀ surroundings, latching.Surrounded surroundings →
    discipline.Surrounded surroundings →
    (∀ dependency ∈ accessor.dependencies,
      discipline.Respected (dependency.2.read surroundings) (gives dependency.2)) →
    discipline.Respected (accessor.read surroundings) (gives accessor)

/-- An accessor keeps the discipline when its producer is permitted and it may remember. -/
theorem Surrounded.respected_read {surroundings : Surroundings} {accessor : Accessor}
    (surrounded : discipline.Surrounded surroundings) (latches : latching.Surrounded surroundings)
    (breaks : discipline.breaks) (gives : Accessor → Instance → Prop)
    (below : ∀ dependency ∈ accessor.dependencies,
      discipline.Respected (dependency.2.read surroundings) (gives dependency.2))
    (permits : ∀ producer, accessor.producer? = some producer →
      discipline.Permits producer (fun dependency => gives dependency.2) accessor.dependencies)
    (remembers : discipline.Remembers accessor.id accessor.type (gives accessor))
    (typed : ∀ handle, handle.type = accessor.type → gives accessor handle) :
    discipline.Respected (accessor.read surroundings) (gives accessor) := by
  cases accessor with
  | constant id handle => exact respected_done (typed handle rfl)
  | lazy id producer dependencies =>
    rw [latches.read_lazy]
    exact remembers.respected_recalling
      ((permits producer rfl).respected_invoke surrounded breaks below) typed
  | prototype id producer dependencies =>
    exact ((permits producer rfl).respected_invoke surrounded breaks below).mono typed

/-- Reading an accessor of the family keeps the discipline where the questions of factories do. -/
theorem Governs.reads (governs : discipline.Governs known gives)
    (closed : Closed applications known) {surroundings : Surroundings}
    (latches : latching.Surrounded surroundings)
    (surrounded : discipline.Surrounded surroundings) (accessor : Accessor)
    (member : known accessor) :
    discipline.Respected (accessor.read surroundings) (gives accessor) := by
  induction accessor using Accessor.induction_on_dependencies with
  | step accessor below =>
    exact governs accessor member _ latches surrounded fun dependency among =>
      below dependency among (closed.dependencies accessor member dependency among)

theorem Governs.pervades (governs : discipline.Governs known gives)
    (breaks : discipline.breaks) (closed : Closed applications known) :
    discipline.Pervades applications known gives :=
  pervades_of_reads breaks closed fun depth surrounded =>
    governs.reads closed (latching_surrounded applications depth) surrounded

/-- The questions of factories keep the discipline at every depth. -/
theorem Governs.surrounded (governs : discipline.Governs known gives)
    (breaks : discipline.breaks) (closed : Closed applications known) (depth : Nat) :
    discipline.Surrounded (surroundings applications depth) :=
  (governs.pervades breaks closed).surrounded depth

/-- Every reading of an accessor of the family keeps the discipline. -/
theorem Governs.respected_read (governs : discipline.Governs known gives)
    (breaks : discipline.breaks) (closed : Closed applications known) (depth : Nat)
    (accessor : Accessor) (member : known accessor) :
    discipline.Respected (accessor.read (surroundings applications depth)) (gives accessor) :=
  (governs.pervades breaks closed).reads depth accessor member

/-- What keeps the discipline at every depth keeps it at the depth of the memory. -/
theorem respected_at_depth {α ε : Type} {attempt : Attempt Memory ε α}
    (family : Nat → Attempt Memory ε α) {given : α → Prop}
    (same : ∀ memory, attempt memory = family memory.depth memory)
    (each : ∀ depth, discipline.Respected (family depth) given) :
    discipline.Respected attempt given := by
  intro before holds
  have yields := each before.depth before holds
  unfold Attempt.Yields at yields ⊢
  rw [same]
  exact yields

/-- The value of an accessor of the family is had within the discipline. -/
theorem Pervades.respected_value (pervades : discipline.Pervades applications known gives)
    (accessor : Accessor) (member : known accessor) :
    discipline.Respected (accessor.value applications) (gives accessor) :=
  respected_at_depth _ (Accessor.value_apply applications accessor) fun depth =>
    pervades.reads depth accessor member

theorem Governs.respected_value (governs : discipline.Governs known gives)
    (breaks : discipline.breaks) (closed : Closed applications known) (accessor : Accessor)
    (member : known accessor) :
    discipline.Respected (accessor.value applications) (gives accessor) :=
  (governs.pervades breaks closed).respected_value accessor member

end Discipline

namespace Discipline

variable {discipline : Discipline} {applications : List Application} {pool : Pool}
  {gives : Accessor → Instance → Prop}

/-- The entries of the pool keep the discipline when they are asked for their values. -/
def Serves (discipline : Discipline) (applications : List Application)
    (gives : Accessor → Instance → Prop) (pool : Pool) : Prop :=
  ∀ key entry, pool.find? key = some entry →
    discipline.Respected (entry.accessor.value applications) (gives entry.accessor)

theorem Serves.respected_withEntry (serves : discipline.Serves applications gives pool) (key : Key)
    {use : RuntimeEntry → Asking (Except ConstructionError Instance)}
    (uses : ∀ entry,
      discipline.Respected (entry.accessor.value applications) (gives entry.accessor) →
      discipline.Respected (use entry) fun _ => True) :
    discipline.Respected (pool.withEntry key use) fun _ => True := by
  unfold Pool.withEntry
  cases found : pool.find? key with
  | none => exact respected_pure trivial
  | some entry =>
    exact (uses entry (serves key entry found)).bind fun _ _ => respected_pure trivial

theorem respected_getInstance {entry : RuntimeEntry}
    (reads : discipline.Respected (entry.accessor.value applications) (gives entry.accessor)) :
    discipline.Respected (entry.getInstance applications) fun _ => True :=
  reads.outcome.mono fun _ _ => trivial

theorem respected_get {entry : RuntimeEntry}
    (reads : discipline.Respected (entry.accessor.value applications) (gives entry.accessor))
    (type : ServiceType) :
    discipline.Respected (entry.get applications type) fun _ => True :=
  (respected_getInstance reads).bind fun _ _ => respected_pure trivial

theorem respected_orFail {α ε : Type} {asking : Asking (Except ε α)} {given : Except ε α → Prop}
    (respected : discipline.Respected asking given) :
    discipline.Respected (Asking.orFail asking) fun _ => True := by
  intro before holds
  have yields := respected before holds
  unfold Attempt.Yields Asking.orFail at *
  rcases ends : asking before with ⟨ending, after⟩
  rw [ends] at yields
  cases ending with
  | value outcome =>
    cases outcome with
    | ok value => exact ⟨yields.1, trivial⟩
    | error error => exact yields.1
  | error error => cases error
  | panic message => exact yields
  | exhausted => exact yields

theorem respected_ending {α ε δ : Type} {attempt : Attempt Memory ε α} {given : α → Prop}
    (respected : discipline.Respected attempt given) :
    discipline.Respected (attempt.ending : Attempt Memory δ (Ending ε α)) fun _ => True := by
  intro before holds
  have yields := respected before holds
  unfold Attempt.Yields Attempt.ending at *
  rcases ends : attempt before with ⟨ending, after⟩
  rw [ends] at yields
  cases ending with
  | value value => exact ⟨yields.1, trivial⟩
  | error error => exact ⟨yields, trivial⟩
  | panic message => exact ⟨yields.2, trivial⟩
  | exhausted => exact ⟨yields.2, trivial⟩

theorem respected_forEach {α β ε : Type} {attempt : α → Attempt Memory ε β}
    (each : ∀ item, discipline.Respected (attempt item) fun _ => True) (items : List α) :
    discipline.Respected (Attempt.forEach attempt items) fun _ => True := by
  induction items with
  | nil => exact respected_done trivial
  | cons item rest ih =>
    exact (each item).andThen fun _ _ => ih.andThen fun _ _ => respected_done trivial

theorem Serves.respected_race (serves : discipline.Serves applications gives pool) (key : Key)
    (threads : Nat) : discipline.Respected (pool.race applications key threads) fun _ => True := by
  unfold Pool.race
  have asked : discipline.Respected (pool.getInstance applications key) fun _ => True :=
    serves.respected_withEntry key fun _ reads => respected_getInstance reads
  apply (respected_forEach (fun _ => respected_ending (respected_orFail asked)) _).bind
  intro endings _
  exact respected_pure trivial

/-- Every question to a pool keeps what its entries keep. -/
theorem Serves.respected_answer (serves : discipline.Serves applications gives pool)
    (query : PoolQuery) : discipline.Respected (pool.answer applications query) fun _ => True := by
  have keyed (key : Key) (type : ServiceType) :
      discipline.Respected (pool.getKeyed applications key type) fun _ => True :=
    serves.respected_withEntry key fun _ reads => respected_get reads type
  have asked (key : Key) : discipline.Respected (pool.getInstance applications key) fun _ => True :=
    serves.respected_withEntry key fun _ reads => respected_getInstance reads
  cases query with
  | get key type route =>
    cases route with
    | keyed => exact (keyed key type).bind fun _ _ => respected_pure trivial
    | plain => exact (keyed _ type).bind fun _ _ => respected_pure trivial
    | qualified => exact (keyed _ type).bind fun _ _ => respected_pure trivial
    | handle => exact (asked key).bind fun _ _ => respected_pure trivial
    | entry =>
      simp only [Pool.answer]
      cases found : pool.find? key with
      | none => exact respected_pure trivial
      | some entry =>
        exact (respected_get (serves key entry found) type).bind fun _ _ => respected_pure trivial
    | entryHandle =>
      simp only [Pool.answer]
      cases found : pool.find? key with
      | none => exact respected_pure trivial
      | some entry =>
        exact (respected_getInstance (serves key entry found)).bind fun _ _ =>
          respected_pure trivial
  | contains key => exact respected_pure trivial
  | entry key full => exact (respected_observe _).bind fun _ _ => respected_pure trivial
  | services => exact respected_pure trivial
  | race key threads => exact serves.respected_race key threads
  | contents => exact (respected_observe _).bind fun _ _ => respected_pure trivial

end Discipline

end Wiring
