import Wiring.Proofs.Calm
import Wiring.Proofs.Failures
import Wiring.Proofs.Observances

/-!
Blame: which factory an error goes back to. The wrappers of an error name a path of declared
dependencies, and at its end stands an accessor that failed by itself: its own call failed, or it
was computing. A lazy accessor remembers its error, so what is remembered must go back to a failure
in the past: every reading among calm factories keeps it so.
-/

namespace Wiring

open Relation

/-- The error of the last of several owners, behind the key of each owner on the way and of the
dependency that it needed. -/
def ConstructionError.behind (own : ConstructionError) (path : List (Key × Key)) :
    ConstructionError :=
  path.foldr (fun step source => .dependency step.1 step.2 source) own

theorem ConstructionError.rootCause_behind (own : ConstructionError) (path : List (Key × Key)) :
    (own.behind path).rootCause = own.rootCause := by
  induction path with
  | nil => rfl
  | cons step rest ih => exact ih

/-- Something was asked among these applications on the way to all: they were built first, or the
bundles of the last one finished. -/
def Stood (all applications : List Application) : Prop :=
  applications <+: all ∨ ∃ earlier application, earlier ++ [application] <+: all ∧
    applications = application.joining earlier

namespace Accessor

/-- The path of keys leads from the first accessor to the last, each time from an owner to one of
its declared dependencies. -/
inductive Follows : Accessor → List (Key × Key) → Accessor → Prop
  | here (accessor : Accessor) : Follows accessor [] accessor
  | deeper {accessor inner last : Accessor} {producer : Producer} {key : Key}
      {path : List (Key × Key)} (makes : accessor.producer? = some producer)
      (declared : (key, inner) ∈ accessor.dependencies) (onward : Follows inner path last) :
      Follows accessor ((producer.key, key) :: path) last

/-- The accessor failed by itself in the history, on the way to all the applications: its factory
was called with values of all its dependencies and failed, or it is lazy and was asked for its value
while it was computing. -/
inductive FailsItself (all : List Application) (history : List Moment) (accessor : Accessor) :
    ConstructionError → Prop
  | called {producer : Producer} {applications : List Application} {depth : Nat}
      {handed : List (Key × Instance)} {before after : Memory} {own : ConstructionError}
      (makes : accessor.producer? = some producer) (stood : Stood all applications)
      (keys : handed.map Prod.fst = accessor.dependencies.map Prod.fst)
      (faults : producer.Faults (surroundings applications depth) handed before own after)
      (heard : after.history <+: history) : FailsItself all history accessor own
  | refused {id : AccessorId} {producer : Producer} {dependencies : List (Key × Accessor)}
      {before : Memory} (lazy : accessor = .lazy id producer dependencies)
      (computing : before.cells id = .computing) (heard : before.history <+: history) :
      FailsItself all history accessor (.reentrant producer.key)

/-- The error goes back to a failure in the history, along declared dependencies. -/
def Blames (all : List Application) (history : List Moment) (accessor : Accessor)
    (error : ConstructionError) : Prop :=
  ∃ path last own, accessor.Follows path last ∧ last.FailsItself all history own ∧
    error = own.behind path

variable {all : List Application} {history later : List Moment} {accessor : Accessor}
  {error own : ConstructionError}

theorem FailsItself.mono (fails : accessor.FailsItself all history own)
    (grown : history <+: later) : accessor.FailsItself all later own := by
  cases fails with
  | called makes stood keys faults heard =>
    exact .called makes stood keys faults (heard.trans grown)
  | refused lazy computing heard => exact .refused lazy computing (heard.trans grown)

/-- What happened in a history has happened in every longer one. -/
theorem Blames.mono (blames : accessor.Blames all history error) (grown : history <+: later) :
    accessor.Blames all later error := by
  obtain ⟨path, last, own, follows, fails, same⟩ := blames
  exact ⟨path, last, own, follows, fails.mono grown, same⟩

theorem FailsItself.blames (fails : accessor.FailsItself all history own) :
    accessor.Blames all history own := ⟨[], accessor, own, .here accessor, fails, rfl⟩

/-- The error of an owner whose dependency failed goes back to where that of the dependency does. -/
theorem Blames.dependency {inner : Accessor} {producer : Producer} {key : Key}
    {source : ConstructionError} (blames : inner.Blames all history source)
    (makes : accessor.producer? = some producer)
    (declared : (key, inner) ∈ accessor.dependencies) :
    accessor.Blames all history (.dependency producer.key key source) := by
  obtain ⟨path, last, own, follows, fails, rfl⟩ := blames
  exact ⟨(producer.key, key) :: path, last, own, .deeper makes declared follows, fails, rfl⟩

end Accessor

/-- What the memory remembers of the errors of calm accessors goes back to failures in its
history. -/
def Memory.Accounts (memory : Memory) (all : List Application) (known : Accessor → Prop) : Prop :=
  ∀ accessor, known accessor → accessor.Calm → ∀ error,
    memory.cells accessor.id = .failed error → accessor.Blames all memory.history error

theorem Memory.Accounts.of_cells {before after : Memory} {all : List Application}
    {known : Accessor → Prop} (accounts : before.Accounts all known)
    (cells : after.cells = before.cells) (grown : before.history <+: after.history) :
    after.Accounts all known := by
  intro accessor member calm error stored
  rw [cells] at stored
  exact (accounts accessor member calm error stored).mono grown

/-- Every error that is remembered goes back to a failure, and no moment is forgotten. -/
def Discipline.blaming (all : List Application) (known : Accessor → Prop) : Discipline where
  holds memory := memory.Accounts all known
  leads before after := before.history <+: after.history
  breaks := True
  refl memory := List.prefix_refl memory.history
  trans first second := first.trans second
  like {before after} like accounts := by
    have grown : before.history <+: after.history := by rw [like.history]
    exact ⟨accounts.of_cells like.cells grown, grown⟩

namespace Discipline

variable {all : List Application} {known : Accessor → Prop}

theorem blaming_record {memory : Memory} (accounts : memory.Accounts all known)
    (moment : Moment) : (blaming all known).Passes memory (memory.record moment) :=
  ⟨accounts.of_cells rfl (List.prefix_append _ _), List.prefix_append _ _⟩

theorem blaming_permits (producer : Producer) (gives : Key × Accessor → Instance → Prop)
    (dependencies : List (Key × Accessor)) :
    (blaming all known).Permits producer gives dependencies where
  begun _ accounts := blaming_record accounts _
  called _ _ _ accounts := blaming_record accounts _
  ended _ accounts := blaming_record accounts _

/-- What a cell comes to hold is accounted for when an error in it is. -/
theorem Passes.store_blaming (family : Family known) {accessor : Accessor} (member : known accessor)
    {before middle : Memory} {cell : Cell} (passes : (blaming all known).Passes before middle)
    (blames : accessor.Calm → ∀ error, cell = .failed error →
      accessor.Blames all middle.history error) :
    (blaming all known).Passes before (middle.store accessor.id cell) := by
  refine ⟨fun other among calm error stored => ?_, passes.2⟩
  by_cases same : other.id = accessor.id
  · obtain rfl := family.unique other accessor among member same
    rw [Memory.store_cells_self] at stored
    exact blames calm error stored
  · rw [Memory.store_cells_of_ne _ _ same] at stored
    exact passes.1 other among calm error stored

/-- A cell that starts to compute holds no error. -/
theorem passes_computing (family : Family known) {accessor : Accessor} (member : known accessor)
    {memory : Memory} (accounts : memory.Accounts all known) :
    (blaming all known).Passes memory (memory.store accessor.id .computing) :=
  Passes.store_blaming family member ⟨accounts, List.prefix_refl _⟩ nofun

end Discipline

/-- An observance for the errors that are remembered. -/
def Observance.blaming (all : List Application) : Observance where
  asks := Discipline.blaming all
  breaks _ := trivial
  permits _ := Discipline.blaming_permits
  fewer within accounts accessor member := accounts accessor (within accessor member)
  joins among bare accounts accessor member calm error stored := by
    rcases among accessor member with old | rfl
    · exact accounts accessor old calm error stored
    · cases bare.symm.trans stored
  bare _ _ none := none.elim

section

variable {all applications : List Application} {known : Accessor → Prop}
  {surroundings : Surroundings}

/-- In a memory whose errors are accounted for, a reading of the calm accessor that fails adds an
error that is accounted for. -/
def Accessor.Tells (accessor : Accessor) (all : List Application) (known : Accessor → Prop)
    (surroundings : Surroundings) : Prop :=
  accessor.Calm → ∀ before error after, before.Accounts all known →
    accessor.read surroundings before = (.error error, after) →
      accessor.Blames all after.history error

/-- Dependencies that are read one after the other keep what each of them keeps. -/
theorem Producer.Gathers.passes {discipline : Discipline}
    {dependencies : List (Key × Accessor)} {values : List (Key × Instance)} {before after : Memory}
    (gathers : Gathers surroundings dependencies before values after)
    (each : ∀ dependency ∈ dependencies,
      discipline.Respected (dependency.2.read surroundings) fun _ => True)
    (holds : discipline.holds before) : discipline.Passes before after := by
  induction gathers with
  | nil memory => exact ⟨holds, discipline.refl memory⟩
  | cons reads onward ih =>
    have first := (each _ List.mem_cons_self).passes holds
    rw [reads] at first
    exact first.trans (ih (fun other member => each other (List.mem_cons_of_mem _ member)) first.1)

/-- An invocation that fails fails at a dependency, which tells why, or by itself. -/
theorem Accessor.blames_of_invoke {depth : Nat} (stood : Stood all applications)
    {accessor : Accessor} {producer : Producer} (makes : accessor.producer? = some producer)
    (calm : accessor.Calm)
    (each : ∀ dependency ∈ accessor.dependencies, (Discipline.blaming all known).Respected
      (dependency.2.read (Wiring.surroundings applications depth)) fun _ => True)
    (tells : ∀ dependency ∈ accessor.dependencies,
      dependency.2.Tells all known (Wiring.surroundings applications depth))
    {before after : Memory} {error : ConstructionError} (accounts : before.Accounts all known)
    (fails : producer.invoke (Wiring.surroundings applications depth) accessor.dependencies before =
      (.error error, after)) : accessor.Blames all after.history error := by
  rw [Producer.invoke_eq_finish] at fails
  obtain ⟨ends, rfl⟩ := Prod.mk.inj fails
  rcases finished : producer.finish (Wiring.surroundings applications depth)
    (.gathering accessor.dependencies []) (before.record (.begun producer.factory))
    with ⟨ending, last⟩
  rw [finished] at ends
  obtain rfl : ending = .error error := ends
  have grown : last.history <+: (last.record (.ended producer.factory)).history :=
    List.prefix_append _ _
  have begun := (Discipline.blaming_record accounts (.begun producer.factory)).1
  rcases Producer.exists_of_finish_eq_error finished with
    ⟨done, rest, key, inner, handed, moment, source, split, gathers, failed, rfl⟩ |
    ⟨handed, moment, gathers, calls⟩
  · have declared : (key, inner) ∈ accessor.dependencies := by simp [split]
    have passes := gathers.passes (fun dependency member => each dependency (by
      rw [split]
      exact List.mem_append_left _ member)) begun
    have blames := tells _ declared (calm.dependency declared) moment source last passes.1 failed
    exact (blames.dependency makes declared).mono grown
  · have faults := (Producer.call_eq_error_iff (answering_surroundings _ _)).mp calls
    exact (Accessor.FailsItself.called makes stood gathers.keys faults grown).blames

/-- A reading of a lazy accessor accounts for the error that it stores, and for that in which it
ends, given that its invocation does. -/
theorem Discipline.blaming_recalling (family : Family known) {id : AccessorId} {producer : Producer}
    {dependencies : List (Key × Accessor)} (member : known (.lazy id producer dependencies))
    {invocation : Evaluation Instance} {gives : Instance → Prop}
    (respected : (blaming all known).Respected invocation gives)
    (blames : (Accessor.lazy id producer dependencies).Calm → ∀ before error after,
      before.Accounts all known → invocation before = (.error error, after) →
        (Accessor.lazy id producer dependencies).Blames all after.history error)
    (quiet : (Accessor.lazy id producer dependencies).Calm → invocation.Quiet)
    {before : Memory} (accounts : before.Accounts all known) :
    (blaming all known).Passes before (recalling id producer.key invocation before).2 ∧
      ((Accessor.lazy id producer dependencies).Calm → ∀ error after,
        recalling id producer.key invocation before = (.error error, after) →
          (Accessor.lazy id producer dependencies).Blames all after.history error) := by
  have same : (blaming all known).Passes before before := ⟨accounts, List.prefix_refl _⟩
  unfold recalling
  cases stored : before.cells id with
  | ready handle => exact ⟨same, nofun⟩
  | failed error =>
    refine ⟨same, fun calm _ _ fails => ?_⟩
    cases fails
    exact accounts _ member calm error stored
  | computing =>
    refine ⟨same, fun _ _ _ fails => ?_⟩
    cases fails
    exact (Accessor.FailsItself.refused rfl stored (List.prefix_refl _)).blames
  | empty =>
    have computing := passes_computing family member accounts
    have onward := computing.trans (respected.passes computing.1)
    change (blaming all known).Passes before (invocation (before.store id .computing)).2 at onward
    dsimp only [settling]
    rcases ends : invocation (before.store id .computing) with ⟨ending, after⟩
    rw [ends] at onward
    have reported (event : Event) : (blaming all known).Passes before (after.report event) :=
      onward.trans ((blaming all known).like (after.like_report event) onward.1)
    cases ending with
    | value handle => exact ⟨(reported _).store_blaming family member nofun, nofun⟩
    | error error =>
      refine ⟨(reported _).store_blaming family member fun calm _ same => ?_,
        fun calm _ _ fails => ?_⟩
      · cases same
        exact blames calm _ error after computing.1 ends
      · cases fails
        exact blames calm _ error after computing.1 ends
    | panic message =>
      refine ⟨onward.store_blaming family member fun calm _ _ => ?_, nofun⟩
      exact absurd ends (quiet calm _ message after)
    | exhausted => exact ⟨onward, nofun⟩

/-- Among calm pools every reading keeps errors accounted for, and tells why it fails. -/
theorem Family.tells (family : Family known) (pools : CalmPools applications)
    (stood : Stood all applications) {depth : Nat}
    (surrounded : (Discipline.blaming all known).Surrounded
      (Wiring.surroundings applications depth))
    (accessor : Accessor) (member : known accessor) :
    (Discipline.blaming all known).Respected
        (accessor.read (Wiring.surroundings applications depth)) (fun _ => True) ∧
      accessor.Tells all known (Wiring.surroundings applications depth) := by
  induction accessor using Accessor.induction_on_dependencies with
  | step accessor ih =>
    have below (dependency : Key × Accessor) (among : dependency ∈ accessor.dependencies) :=
      ih dependency among (family.dependencies accessor member dependency among)
    have keeps (dependency : Key × Accessor) (among : dependency ∈ accessor.dependencies) :=
      (below dependency among).1
    have tells (dependency : Key × Accessor) (among : dependency ∈ accessor.dependencies) :=
      (below dependency among).2
    have quiet := pools.quiet depth
    cases accessor with
    | constant id handle => exact ⟨Discipline.respected_done trivial, nofun⟩
    | prototype id producer dependencies =>
      have respected :=
        (Discipline.blaming_permits producer _ dependencies).respected_invoke surrounded trivial
          keeps
      exact ⟨respected.mono fun _ _ => trivial, fun calm _ _ _ accounts fails =>
        Accessor.blames_of_invoke stood rfl calm keeps tells accounts fails⟩
    | lazy id producer dependencies =>
      have respected :=
        (Discipline.blaming_permits producer _ dependencies).respected_invoke surrounded trivial
          keeps
      have recalls {before : Memory} (accounts : before.Accounts all known) :=
        Discipline.blaming_recalling family member respected
          (fun calm _ _ _ accounts fails =>
            Accessor.blames_of_invoke stood rfl calm keeps tells accounts fails)
          (fun calm => (calm _ .self producer rfl).quiet_invoke quiet fun dependency among =>
            (calm.dependency among).quiet_read quiet) accounts
      unfold Accessor.Tells
      rw [(Discipline.latching_surrounded applications depth).read_lazy]
      exact ⟨Discipline.respected_of_passes trivial (fun _ accounts => (recalls accounts).1)
          fun _ _ _ _ => trivial,
        fun calm _ error after accounts fails => (recalls accounts).2 calm error after fails⟩

end

end Wiring
