import Wiring.Proofs.Feeding
import Wiring.Proofs.Linkages
import Wiring.Proofs.Reaching
import Wiring.Stock

/-!
The order in which constants are made. While an application is compiled, the constants are invoked
one after the other. Each comes after all the constants that it reaches, and only for the sake of a
constant another factory of the assembly is at work. The first constant that fails ends the build
with its error.
-/

namespace Wiring

open Relation

/-- An invocation of the factory of an entry while an application is compiled. -/
structure Making where
  id : EntryId
  entry : Entry
  factory : Factory
  dependencies : List (Key × Accessor)
  before : Memory
  ending : Ending ConstructionError Instance
  after : Memory

namespace Blueprint

/-- The factory of a constant is invoked when others were invoked before: for the first time, after
all the constants that it reaches, and with its own dependencies. It begins, has them read, may be
called, and ends. -/
structure Due (blueprint : Blueprint) (applications : List Application) (earlier : List Making)
    (making : Making) : Prop where
  found : blueprint.entries[making.id.index]? = some making.entry
  origin : making.entry.origin = .made making.factory
  mode : making.entry.effectiveMode blueprint.defaultMode = .constant
  fresh : ∀ other ∈ earlier, other.id ≠ making.id
  ready : ∀ next, LeadsTo blueprint.graph making.id.index next → blueprint.Constant next →
    ∃ other ∈ earlier, other.id.index = next
  keys : making.dependencies.map Prod.fst = making.entry.dependencies
  invoked : blueprint.invocation applications making.id making.entry making.factory
    making.dependencies making.before = (making.ending, making.after)
  heard : ∃ inner call,
    Moment.Readings blueprint.assembly blueprint.Defers making.id.index inner ∧
    Moment.Calling (blueprint.factoryOf making.id) call ∧
    making.after.history = making.before.history ++ .begun (blueprint.factoryOf making.id) ::
      (inner ++ (call ++ [.ended (blueprint.factoryOf making.id)]))

/-- The constants that are invoked, one after the other, and each gives a value. -/
inductive Makes (blueprint : Blueprint) (applications : List Application) (start : List Moment) :
    List Making → List Moment → Prop
  | none : Makes blueprint applications start [] start
  | snoc {earlier : List Making} {making : Making} {handle : Instance}
      (makes : Makes blueprint applications start earlier making.before.history)
      (due : blueprint.Due applications earlier making) (gives : making.ending = .value handle) :
      Makes blueprint applications start (earlier ++ [making]) making.after.history

/-- The constants are invoked, one after the other, and each gives a value; and then there is none
left. -/
structure MakesAll (blueprint : Blueprint) (applications : List Application) (start : List Moment)
    (makings : List Making) (history : List Moment) : Prop where
  makes : blueprint.Makes applications start makings history
  all : ∀ index, blueprint.Constant index → ∃ making ∈ makings, making.id.index = index

variable {blueprint : Blueprint} {assembly : Assembly} {applications : List Application}
  {start history : List Moment} {makings : List Making} {making : Making}

theorem Due.constant (due : blueprint.Due applications makings making) :
    blueprint.Constant making.id.index :=
  ⟨making.entry, due.found, making.entry.isFactory_iff.mpr ⟨making.factory, due.origin⟩, due.mode⟩

/-- Each of the constants was due when it was invoked. -/
theorem Makes.due_of_mem (makes : blueprint.Makes applications start makings history)
    (member : making ∈ makings) :
    ∃ earlier, earlier ⊆ makings ∧ blueprint.Due applications earlier making := by
  induction makes with
  | none => cases member
  | snoc _ due _ ih =>
    rcases List.mem_append.mp member with before | last
    · obtain ⟨earlier, within, due⟩ := ih before
      exact ⟨earlier, List.subset_append_of_subset_left _ within, due⟩
    · rw [List.mem_singleton.mp last]
      exact ⟨_, List.subset_append_left _ _, due⟩

/-- What a constant that is invoked adds to the history: of the factories of the assembly only it is
at work, and those that it reaches. -/
theorem Due.exists_added (due : blueprint.Due applications makings making) :
    ∃ added, making.after.history = making.before.history ++ added ∧
      ∀ moment ∈ added, moment.factory.assembly = blueprint.assembly →
        ReflTransGen (fun node next => next ∈ blueprint.graph node) making.id.index
          moment.factory.entry := by
  obtain ⟨inner, call, readings, calling, added⟩ := due.heard
  refine ⟨_, added, fun moment member own => ?_⟩
  simp only [List.mem_cons, List.mem_append, List.not_mem_nil, or_false] at member
  rcases member with rfl | read | called | rfl
  · exact .refl
  · have depends : LeadsTo blueprint.graph making.id.index moment.factory.entry :=
      TransGen.mono (fun _ _ deferred => deferred.1) _ _ (readings.deferred read own)
    exact depends.to_reflTransGen
  · rw [calling.factory_eq called own]
  · exact .refl

/-- A factory of the assembly that was at work was so for the sake of a constant. -/
theorem Makes.exists_added (makes : blueprint.Makes applications start makings history) :
    ∃ added, history = start ++ added ∧
      ∀ moment ∈ added, moment.factory.assembly = blueprint.assembly →
        ∃ making ∈ makings, ReflTransGen (fun node next => next ∈ blueprint.graph node)
          making.id.index moment.factory.entry := by
  induction makes with
  | none => exact ⟨[], (List.append_nil _).symm, List.forall_mem_nil _⟩
  | @snoc earlier making _ _ due _ ih =>
    obtain ⟨first, before, led⟩ := ih
    obtain ⟨second, after, onward⟩ := due.exists_added
    refine ⟨first ++ second, by rw [after, before, List.append_assoc], fun moment member own => ?_⟩
    rcases List.mem_append.mp member with old | new
    · obtain ⟨other, among, reaches⟩ := led moment old own
      exact ⟨other, List.mem_append_left _ among, reaches⟩
    · exact ⟨making, List.mem_append_right _ (List.mem_singleton_self _), onward moment new own⟩

/-- When a constant is invoked, no factory that depends on it has been at work, and none is at work
for it. -/
theorem Makes.dependents_idle (makes : blueprint.Makes applications start makings
      making.before.history) (due : blueprint.Due applications makings making)
    (acyclic : ¬ LeadsTo blueprint.graph making.id.index making.id.index) :
    ∃ added, making.after.history = start ++ added ∧
      ∀ moment ∈ added, moment.factory.assembly = blueprint.assembly →
        ¬ LeadsTo blueprint.graph moment.factory.entry making.id.index := by
  obtain ⟨first, before, led⟩ := makes.exists_added
  obtain ⟨second, after, onward⟩ := due.exists_added
  refine ⟨first ++ second, by rw [after, before, List.append_assoc],
    fun moment member own depends => ?_⟩
  rcases List.mem_append.mp member with old | new
  · -- The constant that this moment was for would have come after this one.
    obtain ⟨other, among, reaches⟩ := led moment old own
    obtain ⟨earlier, within, before⟩ := makes.due_of_mem among
    obtain ⟨same, listed, index⟩ := before.ready _ (.trans_right reaches depends) due.constant
    exact due.fresh same (within listed) (congrArg EntryId.mk index)
  · exact acyclic (.trans_right (onward moment new own) depends)

/-- How far the constants have come: those that are compiled were invoked, and no others. -/
structure Eager (blueprint : Blueprint) (applications : List Application) (start : List Moment)
    (state : Memory × Compiled) (makings : List Making) : Prop where
  makes : blueprint.Makes applications start makings state.1.history
  listed : ∀ id accessor, state.2 id = some accessor → blueprint.Constant id.index →
    ∃ making ∈ makings, making.id = id
  compiled : ∀ making ∈ makings, ∃ accessor, state.2 making.id = some accessor

variable {base : Accessor → Prop} {spent : Nat → Prop} {state after : Memory × Compiled}
  {id : EntryId} {entry : Entry} {factory : Factory} {dependencies : List (Key × Accessor)}

/-- One more entry is compiled that is no constant of a factory. -/
theorem Eager.skip (eager : blueprint.Eager applications start state makings) {memory : Memory}
    (history : memory.history = state.1.history) (accessor : Accessor)
    (plain : ¬ blueprint.Constant id.index) :
    blueprint.Eager applications start (memory, state.2.add id accessor) makings where
  makes := by
    rw [history]
    exact eager.makes
  listed other found known constant := by
    rcases Compiled.add_cases known with ⟨rfl, -⟩ | old
    · exact absurd constant plain
    · exact eager.listed other found old constant
  compiled making member := Compiled.exists_add (eager.compiled making member) accessor

section Grounded

variable (grounded : blueprint.Grounded assembly applications spent base)
  (accounted : blueprint.Accounted)
  (foreign : ∀ accessor, base accessor → ∀ producer, accessor.producer? = some producer →
    producer.factory.assembly ≠ blueprint.assembly)

include grounded accounted foreign

/-- A constant that is prepared is due. -/
theorem Eager.due (eager : blueprint.Eager applications start state makings)
    (shaped : blueprint.Shaped applications state.2)
    (prepares : blueprint.Prepares .constant state.2 id entry factory dependencies)
    {ending : Ending ConstructionError Instance} {memory : Memory}
    (invoked : blueprint.invocation applications id entry factory dependencies state.1 =
      (ending, memory)) :
    blueprint.Due applications makings
      ⟨id, entry, factory, dependencies, state.1, ending, memory⟩ where
  found := prepares.found
  origin := prepares.origin
  mode := prepares.mode
  fresh other member same := by
    obtain ⟨accessor, known⟩ := eager.compiled other member
    rw [same, prepares.fresh] at known
    cases known
  ready next leads constant := by
    obtain ⟨accessor, known⟩ := shaped.exists_accessor_of_leadsTo accounted
      (fun _ needs => prepares.exists_accessor needs) leads
    obtain ⟨making, member, same⟩ := eager.listed ⟨next⟩ accessor known constant
    exact ⟨making, member, congrArg EntryId.index same⟩
  keys := (map_eq_map_of_forall₂ prepares.covers fun _ _ fits => fits.1).trans
    (grounded.sound.keys prepares.found prepares.origin)
  invoked := invoked
  heard := by
    have surrounded := (Discipline.apart_governs foreign).surrounded trivial grounded.closed
      state.1.depth
    have each (dependency : Key × Accessor) (member : dependency ∈ dependencies) :
        (blueprint.reading id.index).Respected
          (dependency.2.read (surroundings applications state.1.depth)) fun _ => True := by
      obtain ⟨link, among, -, known⟩ := exists_of_forall₂_right prepares.covers member
      have feeds := shaped.feeds grounded.sound
        (fun imported imports => (grounded.imports imported imports).1) known
        (follows_of_mem_links (List.of_mem_zip among).2)
      exact feeds.respected_read grounded.closed foreign _
    obtain ⟨inner, call, readings, calling, added⟩ :=
      invoke_heard (blueprint.producerOf id entry factory) surrounded rfl each state.1
    rw [invocation_apply] at invoked
    rw [invoked] at added
    exact ⟨inner, call, readings, calling, added⟩

/-- A step that compiles a constant invokes it, and no other step invokes anything. -/
theorem Eager.step (eager : blueprint.Eager applications start state makings)
    (shaped : blueprint.Shaped applications state.2)
    (step : blueprint.Step applications state after) :
    ∃ makings, blueprint.Eager applications start after makings := by
  cases step with
  | reported event => exact ⟨makings, eager.makes, eager.listed, eager.compiled⟩
  | given fresh found origin =>
    refine ⟨makings, eager.skip ?_ _ (not_constant found fun makes => ?_)⟩
    · rfl
    · simp [Entry.isFactory, origin, Origin.kind] at makes
  | shared fresh found origin known =>
    refine ⟨makings, eager.skip ?_ _ (not_constant found fun makes => ?_)⟩
    · rfl
    · simp [Entry.isFactory, origin, Origin.kind] at makes
  | imported fresh found origin =>
    refine ⟨makings, eager.skip ?_ _ (not_constant found fun makes => ?_)⟩
    · rfl
    · simp [Entry.isFactory, origin, Origin.kind] at makes
  | lazy prepares =>
    refine ⟨makings, eager.skip ?_ _ (not_constant prepares.found fun _ => ?_)⟩
    · rfl
    · rw [prepares.mode]
      decide
  | prototype prepares =>
    refine ⟨makings, eager.skip ?_ _ (not_constant prepares.found fun _ => ?_)⟩
    · rfl
    · rw [prepares.mode]
      decide
  | @constant memory middle compiled id entry factory dependencies handle prepares invoked =>
    have due := eager.due grounded accounted foreign shaped prepares invoked
    refine ⟨makings ++ [_], .snoc eager.makes due rfl, ?_, ?_⟩
    · intro other found known constant
      rcases Compiled.add_cases known with ⟨rfl, -⟩ | old
      · exact ⟨_, List.mem_append_right _ (List.mem_singleton_self _), rfl⟩
      · obtain ⟨making, member, same⟩ := eager.listed other found old constant
        exact ⟨making, List.mem_append_left _ member, same⟩
    · intro making member
      rcases List.mem_append.mp member with old | new
      · exact Compiled.exists_add (eager.compiled making old) _
      · rw [List.mem_singleton.mp new]
        exact ⟨_, Compiled.add_self _ _ _⟩

/-- At every step of a compilation the constants that are compiled were invoked in order. -/
theorem Steps.exists_eager {memory : Memory}
    (steps : blueprint.Steps applications (memory, Compiled.empty) after) :
    ∃ makings, blueprint.Eager applications memory.history after makings := by
  induction steps with
  | refl => exact ⟨[], .none, nofun, List.forall_mem_nil _⟩
  | tail earlier step ih =>
    obtain ⟨makings, eager⟩ := ih
    exact eager.step grounded accounted foreign (Steps.shaped earlier) step

end Grounded

/-- Where everything that is needed can be ranked, nothing reaches itself. -/
theorem Ranked.not_leadsTo_self {rank : Nat → Nat} (ranked : blueprint.Ranked rank)
    (accounted : blueprint.Accounted) (index : Nat) : ¬ LeadsTo blueprint.graph index index := by
  intro leads
  have lower {next : Nat} (needs : TransGen blueprint.Needs index next) :
      rank next < rank index := by
    induction needs with
    | single needs => exact (ranked.needs _ _ needs).2
    | tail _ needs ih => exact (ranked.needs _ _ needs).2.trans ih
  exact Nat.lt_irrefl _ (lower (accounted.needs_of_leadsTo leads))

end Blueprint

namespace Assembly

variable {offered : Pool → Prop} {assembly : Assembly}

/-- The links of an accepted resolution are those of the dependencies of its factories. -/
theorem blueprint_accounted (wellFormed : assembly.WellFormed offered)
    (accepted : assembly.survey.accepted = true) :
    (assembly.blueprint assembly.survey).Accounted := by
  intro index link member
  have sound := exportedDraft_sound wellFormed
  obtain ⟨entry, -, declared, makes, -⟩ := sound.mem_links.mp member
  have found := sound.declared declared
  have linked := links_exportedDraft accepted found makes
  obtain ⟨factory, origin⟩ := entry.isFactory_iff.mp makes
  have among : link ∈ (entry.dependencies.zip
      (assembly.exportedDraft.links.getD index [])).map Prod.snd := by
    rw [List.map_snd_zip linked.length_eq.ge]
    exact member
  obtain ⟨⟨key, _⟩, pair, rfl⟩ := List.mem_map.mp among
  exact ⟨entry, factory, key, by rw [blueprint_entries]; exact found, origin, pair⟩

end Assembly

namespace Host

variable {host : Host} {assembly : Assembly}

/-- At every step of a build the constants that are compiled were invoked in order. -/
theorem Sound.exists_eager (sound : host.Sound) (current : host.assembly = some assembly)
    (accepted : assembly.survey.accepted = true) {state : Memory × Compiled}
    (steps : (assembly.blueprint assembly.survey).Steps host.applications
      (assembly.announced host.memory, Compiled.empty) state) :
    ∃ makings, (assembly.blueprint assembly.survey).Eager host.applications host.memory.history
      state makings := by
  rw [← (assembly.like_announced host.memory).history]
  exact steps.exists_eager (sound.grounded current accepted)
    (Assembly.blueprint_accounted (sound.wellFormed assembly current) accepted)
    fun accessor knows producer makes => sound.assembly_ne current knows makes

/-- When an application is compiled all constants were invoked. -/
theorem Sound.exists_makesAll (sound : host.Sound) (current : host.assembly = some assembly)
    {application : Application} {state : Memory × Compiled}
    (compiles : assembly.Compiles host.applications host.memory application state) :
    ∃ makings, (assembly.blueprint assembly.survey).MakesAll host.applications host.memory.history
      makings state.1.history := by
  obtain ⟨makings, eager⟩ := sound.exists_eager current compiles.accepted compiles.steps
  refine ⟨makings, eager.makes, fun index constant => ?_⟩
  have wellFormed := sound.wellFormed assembly current
  obtain ⟨entry, found, makes, -⟩ := id constant
  rw [Assembly.blueprint_entries] at found
  have declared := (Assembly.exportedDraft_sound wellFormed).declared_of_isFactory found makes
  obtain ⟨accessor, known⟩ := compiles.declared wellFormed declared
  obtain ⟨making, member, same⟩ := eager.listed ⟨index⟩ accessor known constant
  exact ⟨making, member, congrArg EntryId.index same⟩

/-- A constant that is invoked at some step of a build was due. -/
theorem Sound.exists_due (sound : host.Sound) (current : host.assembly = some assembly)
    (accepted : assembly.survey.accepted = true) {state : Memory × Compiled}
    (steps : (assembly.blueprint assembly.survey).Steps host.applications
      (assembly.announced host.memory, Compiled.empty) state) {id : EntryId} {entry : Entry}
    {factory : Factory} {dependencies : List (Key × Accessor)}
    (prepares : (assembly.blueprint assembly.survey).Prepares .constant state.2 id entry factory
      dependencies) {ending : Ending ConstructionError Instance} {memory : Memory}
    (invoked : (assembly.blueprint assembly.survey).invocation host.applications id entry factory
      dependencies state.1 = (ending, memory)) :
    ∃ makings, (assembly.blueprint assembly.survey).Makes host.applications host.memory.history
        makings state.1.history ∧
      (assembly.blueprint assembly.survey).Due host.applications makings
        ⟨id, entry, factory, dependencies, state.1, ending, memory⟩ := by
  obtain ⟨makings, eager⟩ := sound.exists_eager current accepted steps
  exact ⟨makings, eager.makes, eager.due (sound.grounded current accepted)
    (Assembly.blueprint_accounted (sound.wellFormed assembly current) accepted)
    (fun accessor knows producer makes => sound.assembly_ne current knows makes) steps.shaped
    prepares invoked⟩

/-- Constants are made in the order of their dependencies, and a build fails with the first that
cannot be made. In the build of an accepted assembly, before any bundle would finish, the factories
of constants are invoked one after the other. Each is invoked once, and only when the invocations of
all constants that it reaches have ended with a value; the other factories of the assembly are at
work only while such an invocation has its dependencies read, each for one that depends on it. A
build that comes to an application has invoked all constants, and then the bundles finish or are
broken off. A build that gives an error has come to a constant whose invocation failed: the error
has its key and what the invocation came to, nothing happens after it, and no factory that depends
on it has been at work. The only other ending is that of an invocation that is broken off. -/
theorem Reachable.constants_eager (reachable : host.Reachable)
    (current : host.assembly = some assembly) (accepted : assembly.survey.accepted = true) :
    let blueprint := assembly.blueprint assembly.survey
    (∀ application after,
      assembly.build host.applications host.memory = (.value application, after) →
      ∃ makings state,
        blueprint.MakesAll host.applications host.memory.history makings state.1.history ∧
        assembly.Compiles host.applications host.memory application state ∧
        ((application.halt = none ∧ ∃ last,
            finishEach host.applications application assembly.installations state.1 =
              (.value (), last) ∧
            after = last.report (.assemblyBuilt assembly.config.name)) ∨
          application.halt ≠ none ∧ ∃ ending,
            finishEach host.applications application assembly.installations state.1 =
              (ending, after) ∧
            ending ≠ .value ())) ∧
    (∀ error after, assembly.build host.applications host.memory = (.error error, after) →
      ∃ makings making source,
        blueprint.Makes host.applications host.memory.history makings making.before.history ∧
        blueprint.Due host.applications makings making ∧ making.ending = .error source ∧
        error = .instantiation making.entry.key source ∧ after = making.after ∧
        ∃ added, after.history = host.memory.history ++ added ∧
          ∀ moment ∈ added, moment.factory.assembly = assembly.number →
            ¬ LeadsTo blueprint.graph moment.factory.entry making.id.index) ∧
    ∀ ending after, assembly.build host.applications host.memory = (ending, after) →
      ((∃ message, ending = .panic message) ∨ ending = .exhausted) →
      ∃ makings making,
        blueprint.Makes host.applications host.memory.history makings making.before.history ∧
        blueprint.Due host.applications makings making ∧
        ((∃ message, making.ending = .panic message) ∨ making.ending = .exhausted) ∧
        after = making.after := by
  intro blueprint
  have sound := reachable.sound
  have wellFormed := sound.wellFormed assembly current
  have yields := Assembly.build_yields wellFormed host.applications host.memory
  refine ⟨fun application after ends => ?_, fun error after ends => ?_, fun ending after ends => ?_⟩
  · obtain ⟨state, compiles, finish⟩ := yields.of_value ends
    obtain ⟨makings, makesAll⟩ := sound.exists_makesAll current compiles
    exact ⟨makings, state, makesAll, compiles, Assembly.finish_cases finish⟩
  · rw [Attempt.Yields, ends] at yields
    rcases yields with ⟨refused, -, -⟩ | ⟨-, state, fails, rfl⟩
    · rw [accepted] at refused
      cases refused
    · obtain ⟨middle, id, entry, factory, dependencies, source, steps, prepares, invoked, rfl, -⟩ :=
        fails
      obtain ⟨makings, makes, due⟩ := sound.exists_due current accepted steps prepares invoked
      obtain ⟨rank, ranked⟩ := Assembly.blueprint_ranked wellFormed accepted
      have acyclic := ranked.not_leadsTo_self
        (Assembly.blueprint_accounted wellFormed accepted) id.index
      exact ⟨makings, _, source, makes, due, rfl, rfl, rfl, makes.dependents_idle due acyclic⟩
  · intro broken
    obtain ⟨-, state, breaks, rfl⟩ : assembly.survey.accepted = true ∧ ∃ state,
        blueprint.Breaks host.applications (assembly.announced host.memory, Compiled.empty) state ∧
          after = state.1 := by
      rw [Attempt.Yields, ends] at yields
      rcases broken with ⟨message, rfl⟩ | rfl
      · exact yields
      · exact yields
    obtain ⟨middle, id, entry, factory, dependencies, steps, prepares, invoked, -⟩ := breaks
    rcases invoked with ⟨message, invoked⟩ | invoked
    · obtain ⟨makings, makes, due⟩ := sound.exists_due current accepted steps prepares invoked
      exact ⟨makings, _, makes, due, .inl ⟨message, rfl⟩, rfl⟩
    · obtain ⟨makings, makes, due⟩ := sound.exists_due current accepted steps prepares invoked
      exact ⟨makings, _, makes, due, .inr rfl, rfl⟩

/-- A host that is about to build a constant sum, on top of a lazy sum of a constant number, which
cannot be made. -/
def stalled : Host :=
  (Host.new.start (.named "stalled")).provideEach
    [(Signature.adding ⟨.u32, [.u16]⟩, .constant),
      (Signature.adding ⟨.u16, [.u8]⟩, .lazy),
      (.typed .u8 none [] (.ofFallible [] fun _ _ => .fail (.other "missing")), .constant)]

end Host

/-- The assembly that this host is about to build. -/
def Assembly.stalled : Assembly := Host.stalled.assembly.get (by decide +kernel)

namespace Host

/-- The number fails the build under its own key, and neither sum is at work. -/
theorem constants_eager_sample : ∃ after added,
    Assembly.stalled.build stalled.applications stalled.memory =
      (.error (.instantiation (.of .u8) (.failed (.of .u8) "missing")), after) ∧
    after.history = stalled.memory.history ++ added ∧
    ∀ moment ∈ added, moment.factory.assembly = Assembly.stalled.number →
      moment.factory.entry ≠ 0 ∧ moment.factory.entry ≠ 1 := by
  have reachable : stalled.Reachable := ⟨0, .head (.start _ _) (leads_provideEach _ _)⟩
  have current : stalled.assembly = some Assembly.stalled := (Option.some_get _).symm
  have accepted : Assembly.stalled.survey.accepted = true := by decide +kernel
  have fails : (match (Assembly.stalled.build stalled.applications stalled.memory).1 with
      | .error error => some error
      | _ => none) = some (.instantiation (.of .u8) (.failed (.of .u8) "missing")) := by
    decide +kernel
  have keys : (Assembly.stalled.blueprint Assembly.stalled.survey).entries.map Entry.key =
      [.of .u32, .of .u16, .of .u8] := by
    decide +kernel
  have upper : 1 ∈ (Assembly.stalled.blueprint Assembly.stalled.survey).graph 0 := by
    decide +kernel
  have lower : 2 ∈ (Assembly.stalled.blueprint Assembly.stalled.survey).graph 1 := by
    decide +kernel
  rcases ends : Assembly.stalled.build stalled.applications stalled.memory with ⟨ending, after⟩
  rw [ends] at fails
  cases ending with
  | value application => cases fails
  | panic message => cases fails
  | exhausted => cases fails
  | error error =>
    obtain rfl := Option.some.inj fails
    obtain ⟨makings, making, source, -, due, -, same, -, added, led, idle⟩ :=
      (reachable.constants_eager current accepted).2.1 _ after ends
    have listed : [Key.of .u32, .of .u16, .of .u8][making.id.index]? = some (.of .u8) := by
      rw [← keys, List.getElem?_map, due.found, Option.map_some,
        (BuildError.instantiation.inj same).1]
    have place : making.id.index = 2 := by
      generalize making.id.index = index at listed
      rcases index with _ | _ | _ | beyond
      · exact absurd listed (by decide)
      · exact absurd listed (by decide)
      · rfl
      · cases listed
    refine ⟨after, added, rfl, led, fun moment member own => ?_⟩
    have apart := idle moment member own
    rw [place] at apart
    refine ⟨fun first => apart ?_, fun second => apart ?_⟩
    · rw [first]
      exact .tail (.single upper) lower
    · rw [second]
      exact .single lower

end Host

end Wiring
