import Wiring.Proofs.Outcomes
import Wiring.Proofs.Visits
import Wiring.Proofs.Wards
import Wiring.Stock

/-!
The life of a lazy cell. A cell that is new starts to compute when it is first read, and it stores
an outcome for good when its invocation is over. No reading touches a cell that is not empty, but
for the invocation that fills it: so a cell stays computing through all that its own invocation
causes, and what is stored at the end is what that invocation came to. In each memory that is
reached the pieces of a cell tell the same.
-/

namespace Wiring

open Relation

namespace LazyCell

/-- A cell whose invocation goes on: there is no outcome, and the invoker is taken. -/
def computing : LazyCell := ⟨none, .computing, false⟩

/-- One step in the life of a cell. -/
inductive Step : LazyCell → LazyCell → Prop
  | starts : Step new computing
  | succeeds (handle : Instance) : Step computing ⟨some (.ok handle), .ready, false⟩
  | fails (error : ConstructionError) : Step computing ⟨some (.error error), .failed, false⟩

/-- What a cell may come to. -/
abbrev Leads : LazyCell → LazyCell → Prop := ReflTransGen Step

/-- What a cell holds after its invocation, by the ending that this came to. -/
def settled (key : Key) : Ending ConstructionError Instance → LazyCell
  | .value handle => ⟨some (.ok handle), .ready, false⟩
  | .error error => ⟨some (.error error), .failed, false⟩
  | .panic _ => ⟨some (.error (.panicked key)), .failed, false⟩
  | .exhausted => computing

variable {before after : LazyCell}

theorem Step.tied (step : Step before after) : after.Tied := by
  cases step with
  | starts => exact tied_full .computing
  | succeeds handle => exact tied_full (.ready handle)
  | fails error => exact tied_full (.failed error)

theorem Leads.tied (leads : before.Leads after) (tied : before.Tied) : after.Tied := by
  cases leads with
  | refl => exact tied
  | tail _ step => exact step.tied

theorem leads_settled (key : Key) (ending : Ending ConstructionError Instance) :
    computing.Leads (settled key ending) := by
  cases ending with
  | value handle => exact .single (.succeeds handle)
  | error error => exact .single (.fails error)
  | panic message => exact .single (.fails (.panicked key))
  | exhausted => exact .refl

theorem leads_of_new (tied : after.Tied) : new.Leads after := by
  rw [tied_iff.mp tied]
  cases after.view with
  | empty => exact .refl
  | computing => exact .single .starts
  | ready handle => exact .head .starts (.single (.succeeds handle))
  | failed error => exact .head .starts (.single (.fails error))

/-- A cell that has stored an outcome is final. -/
theorem Leads.eq_of_outcome (leads : before.Leads after)
    {outcome : Except ConstructionError Instance} (stored : before.outcome = some outcome) :
    after = before := by
  induction leads with
  | refl => rfl
  | tail _ step ih =>
    rw [ih] at step
    cases step <;> cases stored

end LazyCell

/-- A cell that is latched goes its way. -/
theorem Memory.Latches.leads {before after : Memory} (latches : before.Latches after)
    (tied : before.Tied) (id : AccessorId) : (before.lazies id).Leads (after.lazies id) := by
  by_cases empty : before.cells id = .empty
  · have fresh : before.lazies id = .new := by
      rw [LazyCell.tied_iff.mp (tied id), ← Memory.cells, empty]
      rfl
    rw [fresh]
    exact LazyCell.leads_of_new (latches.tied tied id)
  · rw [latches.lazies id empty]

/-- A cell that computes goes on to do so while it is latched. -/
theorem Memory.Latches.still_computing {before after : Memory} {id : AccessorId}
    (latches : before.Latches after) (computing : before.lazies id = .computing) :
    after.lazies id = .computing := by
  rw [latches.lazies id, computing]
  simp [Memory.cells, computing, LazyCell.computing, LazyCell.view]

namespace Discipline

theorem latching_ward :
    Ward latching (fun _ _ => True) (fun _ => True) (fun _ _ => True) 0 where
  breaks := trivial
  governs accessor _ _ latches _ _ := latches.latching_read accessor
  permits producer dependencies _ _ := latching_permits producer _ dependencies
  joins _ _ _ _ := trivial
  counts _ _ := ⟨trivial, Nat.le_succ _, .of_lazies rfl⟩
  grows _ _ leads := leads.1

end Discipline

namespace Visit

open Discipline

variable {applications : List Application} {visit inner : Visit} {producer : Producer}
  {dependencies : List (Key × Accessor)} {start moment before after : Memory} {stage : Stage}
  {count depth : Nat} {id : AccessorId}

theorem latches_read (applications : List Application) (depth : Nat) (accessor : Accessor)
    (before : Memory) :
    before.Latches (accessor.read (surroundings applications depth) before).2 :=
  (((latching_surrounded applications depth).latching_read accessor).passes trivial).2.2

/-- No step of an invocation changes a cell that is not empty. -/
theorem latches_advance (producer : Producer) (applications : List Application) (depth : Nat)
    (point : Stage × Memory) :
    point.2.Latches (producer.advance (surroundings applications depth) point).2 := by
  have surrounded := latching_surrounded applications depth
  obtain ⟨stage, memory⟩ := point
  cases stage with
  | gathering pending values =>
    cases pending with
    | nil => exact .of_lazies rfl
    | cons dependency rest =>
      rw [Producer.advance, Stage.after_memory, Accessor.readDependency_memory]
      exact latches_read applications depth dependency.2 memory
  | running rest =>
    cases rest with
    | give value => exact .of_lazies rfl
    | fail error => exact .refl memory
    | panic message => exact .refl memory
    | write note next => exact .of_lazies rfl
    | lookup path key next =>
      rw [Producer.advance, Stage.after_memory]
      exact ((surrounded.lookup path key).passes trivial).2.2
    | peek path key next =>
      rw [Producer.advance, Stage.after_memory]
      exact ((surrounded.peek path key).passes trivial).2.2
  | finished ending => exact .refl memory

theorem latches_iterate (producer : Producer) (applications : List Application) (depth : Nat)
    (point : Stage × Memory) (count : Nat) :
    point.2.Latches ((producer.advance (surroundings applications depth))^[count] point).2 := by
  induction count with
  | zero => exact .refl _
  | succ count ih =>
    rw [Function.iterate_succ_apply']
    exact ih.trans (latches_advance producer applications depth _)

/-- The invocation of a visit begins without a change of a cell that is not empty. -/
theorem Invokes.latches (invokes : visit.Invokes producer dependencies start) :
    visit.memory.Latches start := by
  cases invokes with
  | once empty => exact Memory.latches_store empty _
  | anew => exact .refl _

/-- No moment of a visit has changed a cell that was not empty when its invocation began. -/
theorem Stands.latches_start (stands : visit.Stands applications count stage moment) :
    ∃ producer dependencies start, visit.Invokes producer dependencies start ∧
      start.Latches moment := by
  obtain ⟨producer, dependencies, start, invokes, point⟩ := stands
  have latches := latches_iterate producer applications visit.depth
    (.gathering dependencies [], start.record (.begun producer.factory)) count
  rw [point] at latches
  have began : start.Latches (start.record (.begun producer.factory)) := .of_lazies rfl
  exact ⟨producer, dependencies, start, invokes, began.trans latches⟩

theorem Stands.latches (stands : visit.Stands applications count stage moment) :
    visit.memory.Latches moment := by
  obtain ⟨producer, dependencies, start, invokes, latches⟩ := stands.latches_start
  exact invokes.latches.trans latches

theorem Opens.latches (opens : visit.Opens applications inner) :
    visit.memory.Latches inner.memory := by
  cases opens with
  | dependency stands => exact stands.latches
  | question stands asks deep place found => exact stands.latches

theorem latches_of_opens (opens : ReflTransGen (Opens applications) visit inner) :
    visit.memory.Latches inner.memory := by
  induction opens with
  | refl => exact .refl _
  | tail _ opens ih => exact ih.trans opens.latches

/-- While its own invocation goes on, a cell is computing. -/
theorem Stands.computing
    (stands : (Visit.mk depth (.lazy id producer dependencies) before).Stands applications count
      stage moment) : moment.lazies id = .computing := by
  obtain ⟨_, _, start, invokes, latches⟩ := stands.latches_start
  cases invokes with
  | once empty => exact latches.computing

theorem Opens.computing
    (opens : (Visit.mk depth (.lazy id producer dependencies) before).Opens applications inner) :
    inner.memory.lazies id = .computing := by
  cases opens with
  | dependency stands => exact stands.computing
  | question stands asks deep place found => exact stands.computing

/-- A cell is computing when a visit begins that its own invocation causes, at any depth. -/
theorem computing_of_opens
    (opens : TransGen (Opens applications) ⟨depth, .lazy id producer dependencies, before⟩ inner) :
    inner.memory.lazies id = .computing := by
  obtain ⟨first, direct, deeper⟩ := TransGen.head'_iff.mp opens
  exact (latches_of_opens deeper).still_computing direct.computing

/-- A cell is computing at each moment of each visit that its own invocation causes. -/
theorem computing_of_stands
    (opens : ReflTransGen (Opens applications) ⟨depth, .lazy id producer dependencies, before⟩
      inner)
    (stands : inner.Stands applications count stage moment) : moment.lazies id = .computing := by
  rcases reflTransGen_iff_eq_or_transGen.mp opens with rfl | deeper
  · exact stands.computing
  · exact stands.latches.still_computing (computing_of_opens deeper)

/-- A visit to a cell that is computing is refused and changes nothing. -/
theorem result_of_computing (computing : before.lazies id = .computing) :
    (Visit.mk depth (.lazy id producer dependencies) before).result applications =
      (.error (.reentrant producer.key), before) := by
  rw [result, Accessor.read_lazy, recollect, computing]
  rfl

/-- What a cell has stored is what every visit gives, without an invocation. -/
theorem result_of_outcome {outcome : Except ConstructionError Instance}
    (stored : (before.lazies id).outcome = some outcome) :
    (Visit.mk depth (.lazy id producer dependencies) before).result applications =
      (.ofExcept outcome, before) := by
  rw [result, Accessor.read_lazy, recollect, stored]

/-- When the invocation of a cell is over, the visit ends as it did, and the cell holds what it came
to. Nothing else is stored then. -/
theorem Stands.result_once {ending : Ending ConstructionError Instance} {last : Memory}
    (finished : (Visit.mk depth (.lazy id producer dependencies) before).Stands applications count
      (.finished ending) last) :
    ((Visit.mk depth (.lazy id producer dependencies) before).result applications).1 = ending ∧
      ∀ other,
        ((Visit.mk depth (.lazy id producer dependencies) before).result applications).2.lazies
          other = if other = id then .settled producer.key ending else last.lazies other := by
  have computing := finished.computing
  obtain ⟨_, _, start, invokes, point⟩ := finished
  cases invokes with
  | once empty =>
    have ends := invoke_of_finished point
    rw [result, (latching_surrounded applications depth).read_lazy, recalling, empty]
    simp only [settling, ends]
    cases ending with
    | value handle => exact ⟨rfl, fun _ => rfl⟩
    | error error => exact ⟨rfl, fun _ => rfl⟩
    | panic message => exact ⟨rfl, fun _ => rfl⟩
    | exhausted =>
      refine ⟨rfl, fun other => ?_⟩
      by_cases same : other = id
      · rw [if_pos same, same]
        exact computing
      · rw [if_neg same]
        rfl

theorem Invokes.unique {other : Producer} {others : List (Key × Accessor)} {begin : Memory}
    (invokes : visit.Invokes producer dependencies start)
    (again : visit.Invokes other others begin) :
    producer = other ∧ dependencies = others ∧ start = begin := by
  cases invokes <;> cases again <;> exact ⟨rfl, rfl, rfl⟩

/-- From one step of a visit to the next no cell changes that is not empty. -/
theorem Stands.latches_next {onward : Stage} {next : Memory}
    (stands : visit.Stands applications count stage moment)
    (follows : visit.Stands applications (count + 1) onward next) : moment.Latches next := by
  obtain ⟨producer, dependencies, start, invokes, point⟩ := stands
  obtain ⟨_, _, _, again, reached⟩ := follows
  obtain ⟨rfl, rfl, rfl⟩ := invokes.unique again
  rw [Function.iterate_succ_apply', point] at reached
  have latches := latches_advance producer applications visit.depth (stage, moment)
  rwa [reached] at latches

/-- The visit settles a lazy accessor. Until its invocation is over, the accessor is seen to be
computing at each moment of this visit and of every visit that it causes, and each visit to the same
accessor among these is refused as re-entrant and changes nothing; each of these visits goes on
where one that it caused has ended. The invocation comes to its end after some number of steps, the
visit ends in the same way, and what is stored is just that: the value, the error, or that the
factory panicked. -/
structure Settles (applications : List Application) (visit : Visit) (producer : Producer) :
    Prop where
  computing : ∀ inner, ReflTransGen (Opens applications) visit inner →
    ∀ count stage moment, inner.Stands applications count stage moment →
      moment.lazies visit.accessor.id = .computing ∧
        moment.stateOf visit.accessor = some .computing
  refused : ∀ inner, TransGen (Opens applications) visit inner →
    inner.accessor.id = visit.accessor.id →
      inner.accessor = visit.accessor ∧
        inner.result applications = (.error (.reentrant producer.key), inner.memory)
  resumed : ∀ inner next, ReflTransGen (Opens applications) visit inner →
    inner.Opens applications next →
      ∃ count stage, inner.Stands applications count stage (next.result applications).2
  settled : ∃ count ending last, visit.Stands applications count (.finished ending) last ∧
    (visit.result applications).1 = ending ∧
    (visit.result applications).2.lazies visit.accessor.id = .settled producer.key ending

/-- The visit that finds a lazy accessor empty settles it. -/
theorem settles {known : Accessor → Prop} (family : Family known)
    (closed : Closed applications known) (member : known (.lazy id producer dependencies))
    (empty : before.cells id = .empty) :
    (Visit.mk depth (.lazy id producer dependencies) before).Settles applications producer where
  computing inner opens count stage moment stands := by
    have computing := computing_of_stands opens stands
    refine ⟨computing, ?_⟩
    rw [Memory.stateOf, computing]
    rfl
  refused inner opens same := by
    have inside : known inner.accessor := by
      clear same
      induction opens with
      | single opens => exact opens.known closed member
      | tail _ opens ih => exact opens.known closed ih
    have accessor := family.unique _ _ inside member same
    have computing := computing_of_opens opens
    obtain ⟨depth, _, memory⟩ := inner
    obtain rfl := accessor
    exact ⟨rfl, result_of_computing computing⟩
  resumed _ _ _ opens := opens.resumes
  settled := by
    obtain ⟨count, ending, last, finished⟩ := (Invokes.once empty).exists_finished applications
    obtain ⟨ends, cells⟩ := finished.result_once
    exact ⟨count, ending, last, finished, ends, by rw [cells]; exact if_pos rfl⟩

/-- From the end of its invocation to the end of a visit every cell goes its way: the one that was
computing for it is settled, and no other changes. -/
theorem Stands.leads_result {ending : Ending ConstructionError Instance} {last : Memory}
    (finished : visit.Stands applications count (.finished ending) last) (id : AccessorId) :
    (last.lazies id).Leads ((visit.result applications).2.lazies id) := by
  have ⟨producer, dependencies, start, invokes, point⟩ := finished
  cases invokes with
  | once empty =>
    rw [finished.result_once.2]
    split
    · rename_i same
      rw [same, finished.computing]
      exact LazyCell.leads_settled _ _
    · exact .refl
  | anew =>
    rw [result, Accessor.read_prototype, invoke_of_finished point]
    exact .refl

/-- While a visit goes on, every cell goes its way. -/
theorem Passes.leads (passes : visit.Passes applications before after) (tied : before.Tied)
    (id : AccessorId) : (before.lazies id).Leads (after.lazies id) := by
  induction passes with
  | begins stands => exact stands.latches.leads tied id
  | advances stands follows => exact (stands.latches_next follows).leads tied id
  | inside _ _ ih => exact ih tied
  | ends finished => exact finished.leads_result id

end Visit

namespace Host

variable {host later : Host} {applications : List Application} {known : Accessor → Prop}

/-- The accessors that a host has to do with, and the applications that their factories may ask:
those of its pools, while it compiles also those that are compiled already, and while bundles finish
all those of the new application. -/
inductive Handles (host : Host) : List Application → (Accessor → Prop) → Prop
  | built : Handles host host.applications host.Knows
  | compiling {assembly : Assembly} {state : Memory × Compiled}
      (current : host.assembly = some assembly) (accepted : assembly.survey.accepted = true)
      (steps : (assembly.blueprint assembly.survey).Steps host.applications
        (assembly.announced host.memory, Compiled.empty) state) :
      Handles host host.applications (state.2.Gathers host.Knows)
  | finishing {assembly : Assembly} {application : Application} {state : Memory × Compiled}
      (current : host.assembly = some assembly)
      (compiles : assembly.Compiles host.applications host.memory application state) :
      Handles host (application.joining host.applications) (state.2.Gathers host.Knows)

/-- What a host has to do with is a family, and holds what its factories may ask for. -/
theorem Sound.handles (sound : host.Sound) (handles : host.Handles applications known) :
    Family known ∧ Closed applications known := by
  cases handles with
  | built => exact ⟨sound.arena.family host.closed, host.closed⟩
  | compiling current accepted steps =>
    have progress := sound.progress current accepted steps
    have closed := progress.closed_gathers host.closed
    exact ⟨progress.arena.family closed, closed⟩
  | finishing current compiles =>
    have progress := sound.progress current compiles.accepted compiles.steps
    have closed := progress.closed_gathers host.closed
    exact ⟨progress.arena.family closed, compiles.closed_joining closed⟩

/-- No move changes a cell that is not empty. -/
theorem Sound.latches_moves (sound : host.Sound) (moves : host.Moves later) :
    host.memory.Latches later.memory := by
  have covered : host.Covered .latching (fun _ => True) 0 :=
    ⟨fun _ _ => trivial, trivial, Nat.zero_le _⟩
  have built := covered.build Discipline.latching_ward sound
    fun _ _ _ _ _ _ _ _ _ _ => trivial
  exact (covered.moves_of_build Discipline.latching_ward built moves).1.2

/-- No step of a compilation changes a cell that is not empty. -/
theorem Sound.latches_step {assembly : Assembly} {state after : Memory × Compiled}
    (sound : host.Sound) (current : host.assembly = some assembly)
    (accepted : assembly.survey.accepted = true)
    (steps : (assembly.blueprint assembly.survey).Steps host.applications
      (assembly.announced host.memory, Compiled.empty) state)
    (step : (assembly.blueprint assembly.survey).Step host.applications state after) :
    state.1.Latches after.1 := by
  have covers : Ward.Covers .latching (fun _ => True) 0 host.Knows state :=
    ⟨fun _ _ => trivial, trivial, Nat.zero_le _⟩
  exact (covers.step Discipline.latching_ward (sound.grounded current accepted)
    (sound.progress current accepted steps) step fun _ _ => trivial).1.2

end Host

/-- The first memory turns into the second: by a move of a host, by a step of a compilation, while
an accessor is read, or because something is noted or reported. -/
inductive Memory.Turns : Memory → Memory → Prop
  | moves {host later : Host} (reachable : host.Reachable) (moves : host.Moves later) :
      Turns host.memory later.memory
  | compiles {host : Host} {assembly : Assembly} {state after : Memory × Compiled}
      (reachable : host.Reachable) (current : host.assembly = some assembly)
      (accepted : assembly.survey.accepted = true)
      (steps : (assembly.blueprint assembly.survey).Steps host.applications
        (assembly.announced host.memory, Compiled.empty) state)
      (step : (assembly.blueprint assembly.survey).Step host.applications state after) :
      Turns state.1 after.1
  | reads {applications : List Application} {visit : Visit} {before after : Memory}
      (passes : visit.Passes applications before after) : Turns before after
  | notes {before after : Memory} (like : before.Like after) : Turns before after

/-- Whatever happens, every cell goes its way. -/
theorem Memory.Turns.leads {before after : Memory} (turns : before.Turns after)
    (tied : before.Tied) (id : AccessorId) : (before.lazies id).Leads (after.lazies id) := by
  cases turns with
  | moves reachable moves => exact (reachable.sound.latches_moves moves).leads tied id
  | compiles reachable current accepted steps step =>
    exact (reachable.sound.latches_step current accepted steps step).leads tied id
  | reads passes => exact passes.leads tied id
  | notes like => exact (Latches.of_lazies like.lazies).leads tied id

/-- The pieces of all cells stay tied, and every cell goes its way. -/
theorem Memory.leads_of_turns {before after : Memory}
    (turns : ReflTransGen Memory.Turns before after) (tied : before.Tied) :
    after.Tied ∧ ∀ id, (before.lazies id).Leads (after.lazies id) := by
  induction turns with
  | refl => exact ⟨tied, fun _ => .refl⟩
  | tail _ turns ih =>
    obtain ⟨tied, leads⟩ := ih
    have onward := turns.leads tied
    exact ⟨fun id => (onward id).tied (tied id), fun id => (leads id).trans (onward id)⟩

namespace Host

variable {host : Host} {applications : List Application} {known : Accessor → Prop}
  {id : AccessorId} {producer : Producer} {dependencies : List (Key × Accessor)}

/-- In the memory of a host the pieces of all cells tell the same. -/
theorem Reachable.tied (reachable : host.Reachable) : host.memory.Tied := by
  obtain ⟨patience, leads⟩ := reachable
  induction leads with
  | refl => exact fun _ => LazyCell.tied_full .empty
  | tail leads moves ih =>
    have reached : Reachable _ := ⟨patience, leads⟩
    exact (reached.sound.latches_moves moves).tied ih

/-- The life of a lazy cell. In the memory of a host, and in every memory that this turns into, the
outcome, the state and the invoker of a cell tell the same: it is ready when a value is stored in it
and failed when an error is. Whatever happens, the cell only starts to compute and then stores an
outcome, which stays; from then on every visit gives that outcome and changes nothing, so it invokes
nothing. The visit that finds no outcome and the invoker settles the cell, whatever its factory does
and asks for. -/
theorem Reachable.settles_lazily (reachable : host.Reachable)
    (handles : host.Handles applications known)
    (member : known (.lazy id producer dependencies)) :
    host.memory.Tied ∧
    (∀ before after : Memory, before.Tied → ReflTransGen Memory.Turns before after →
      after.Tied ∧ (before.lazies id).Leads (after.lazies id) ∧
      ∀ outcome, (before.lazies id).outcome = some outcome → ∀ others depth,
        (Visit.mk depth (.lazy id producer dependencies) after).result others =
          (.ofExcept outcome, after)) ∧
    ∀ depth before, (before.lazies id).outcome = none → (before.lazies id).invoker = true →
      (Visit.mk depth (.lazy id producer dependencies) before).Settles applications producer := by
  obtain ⟨family, closed⟩ := reachable.sound.handles handles
  refine ⟨reachable.tied, fun before after tied turns => ?_, fun depth before unknown there => ?_⟩
  · obtain ⟨tied, leads⟩ := Memory.leads_of_turns turns tied
    refine ⟨tied, leads id, fun outcome stored others depth => ?_⟩
    apply Visit.result_of_outcome
    rw [(leads id).eq_of_outcome stored, stored]
  · apply Visit.settles family closed member
    rw [Memory.cells, LazyCell.view, unknown, there]

/-- A host whose only value is lazy; its factory asks for that value before it makes it. -/
def introspective : Host :=
  (Host.new.start (.named "introspective")).provideEach
    [(.typed .u16 none [] ⟨"asking", fun _ _ => .lookup ⟨0, .root, false⟩ (.of .u16) fun _ =>
      .give (.ofParts .u16 5 "")⟩, .lazy)]

theorem reachable_introspective : introspective.build.2.Reachable :=
  Reachable.leads ⟨0, .head (.start _ _) (leads_provideEach _ _)⟩ (.single (.build introspective))

theorem exists_opens_introspective : ∃ id producer dependencies inner,
    introspective.build.2.Knows (.lazy id producer dependencies) ∧
      introspective.build.2.memory.lazies id = .new ∧
      Visit.Opens introspective.build.2.applications
        ⟨1, .lazy id producer dependencies, introspective.build.2.memory⟩ inner ∧
      inner.accessor.id = id := by
  have seen : ((PoolPath.mk 0 .root false).resolve? introspective.build.2.applications).bind
      (fun pool => (pool.find? (Key.of .u16)).map fun entry =>
        (introspective.build.2.memory.stateOf entry.accessor, entry.accessor.dependencies.length,
          entry.accessor.producer?.bind fun producer =>
            (producer.advance (surroundings introspective.build.2.applications 1)
              (.gathering [] [], (introspective.build.2.memory.store entry.accessor.id
                .computing).record (.begun producer.factory))).1.question?)) =
      some (some .uninitialized, 0, some (⟨0, .root, false⟩, .of .u16)) := by decide +kernel
  obtain ⟨pool, place, shown⟩ := Option.bind_eq_some_iff.mp seen
  obtain ⟨entry, found, facts⟩ := Option.map_eq_some_iff.mp shown
  have knows := knows_of_find? (offers_of_resolve? place) found
  obtain ⟨state, rest⟩ := Prod.mk.inj facts
  obtain ⟨none, asks⟩ := Prod.mk.inj rest
  obtain ⟨key, description, accessor⟩ := entry
  cases accessor with
  | constant id handle => cases asks
  | prototype id producer dependencies => cases state
  | lazy id producer dependencies =>
    obtain rfl := List.length_eq_zero_iff.mp none
    have fresh := (reachable_introspective.tied id).eq_new (Option.some.inj state)
    have empty : introspective.build.2.memory.cells id = .empty := by
      rw [Memory.cells, fresh]
      rfl
    have stands : Visit.Stands introspective.build.2.applications
        ⟨1, .lazy id producer [], introspective.build.2.memory⟩ 1 _ _ :=
      ⟨producer, [], _, .once empty, rfl⟩
    exact ⟨id, producer, [], _, knows, fresh, .question stands asks rfl place found, rfl⟩

theorem settles_lazily_sample : ∃ id producer dependencies inner,
    Visit.Opens introspective.build.2.applications
        ⟨1, .lazy id producer dependencies, introspective.build.2.memory⟩ inner ∧
      inner.result introspective.build.2.applications =
        (.error (.reentrant producer.key), inner.memory) ∧
      ((Visit.mk 1 (.lazy id producer dependencies) introspective.build.2.memory).result
          introspective.build.2.applications).2.lazies id =
        .settled producer.key
          ((Visit.mk 1 (.lazy id producer dependencies) introspective.build.2.memory).result
            introspective.build.2.applications).1 := by
  obtain ⟨id, producer, dependencies, inner, knows, fresh, opens, same⟩ :=
    exists_opens_introspective
  have settles := (reachable_introspective.settles_lazily .built knows).2.2 1
    introspective.build.2.memory (by rw [fresh]; rfl) (by rw [fresh]; rfl)
  obtain ⟨-, refused⟩ := settles.refused inner (.single opens) same
  obtain ⟨_, ending, _, -, ends, stored⟩ := settles.settled
  exact ⟨id, producer, dependencies, inner, opens, refused, by rw [ends]; exact stored⟩

end Host

end Wiring
