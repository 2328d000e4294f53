import Wiring.Proofs.Circuits
import Wiring.Proofs.Readings
import Wiring.Proofs.Shapes

/-!
What a factory of an assembly is fed with. Behind each of its dependencies there is a constant, or
a factory on which it depends in turn, or something that another assembly made; and everything that
it reaches is compiled before it is. So a reading for it lets only those factories work to which it
defers.
-/

namespace Wiring

open Relation

theorem Compiled.exists_add {compiled : Compiled} {id other : EntryId}
    (known : ∃ accessor, compiled other = some accessor) (accessor : Accessor) :
    ∃ accessor', compiled.add id accessor other = some accessor' := by
  by_cases same : other = id
  · exact ⟨accessor, by rw [same, add_self]⟩
  · rw [add_of_ne same]
    exact known

theorem Compiled.Covers.exists_accessor {compiled : Compiled} {links : List (Key × EntryId)}
    {dependencies : List (Key × Accessor)} (covers : compiled.Covers links dependencies)
    {link : Key × EntryId} (member : link ∈ links) :
    ∃ accessor, compiled link.2 = some accessor := by
  obtain ⟨place, listed⟩ := List.getElem?_of_mem member
  have related := rel_getElem? covers place
  rw [listed] at related
  obtain ⟨dependency, -, -, known⟩ := exists_of_rel_some related
  exact ⟨dependency.2, known⟩

namespace Blueprint

/-- The graph that leads from each factory to the producers of its dependencies. -/
def graph (blueprint : Blueprint) : Nat → List Nat :=
  Draft.factoriesBehind blueprint.entries blueprint.links

/-- The entry is a constant that a factory makes. -/
def Constant (blueprint : Blueprint) (index : Nat) : Prop :=
  ∃ entry, blueprint.entries[index]? = some entry ∧ entry.isFactory = true ∧
    entry.effectiveMode blueprint.defaultMode = .constant

/-- A factory depends on another one that is no constant, and so is invoked when it is read. -/
def Defers (blueprint : Blueprint) (index next : Nat) : Prop :=
  next ∈ blueprint.graph index ∧ ¬ blueprint.Constant next

/-- The accessor can stand for a dependency of the factory of an entry: it is known from elsewhere,
or a constant, or that of a factory to which this one defers. -/
inductive Feeds (blueprint : Blueprint) (base : Accessor → Prop) : Nat → Accessor → Prop
  | outside {index : Nat} {accessor : Accessor} (known : base accessor) :
      Feeds blueprint base index accessor
  | constant {index : Nat} (id : AccessorId) (handle : Instance) :
      Feeds blueprint base index (.constant id handle)
  | deferred {index next : Nat} {accessor : Accessor} {producer : Producer}
      (deferred : blueprint.Defers index next) (makes : accessor.producer? = some producer)
      (own : producer.factory = ⟨blueprint.assembly, next⟩)
      (below : ∀ dependency ∈ accessor.dependencies, Feeds blueprint base next dependency.2) :
      Feeds blueprint base index accessor

variable {blueprint : Blueprint} {applications : List Application} {base : Accessor → Prop}

/-- Readings for the factory of an entry. -/
abbrev reading (blueprint : Blueprint) (index : Nat) : Discipline :=
  .adding (Moment.Readings blueprint.assembly blueprint.Defers index)
    (Moment.ongoing_readings _ _ _)

/-- An invocation of a factory whose dependencies are fed begins, has its dependencies read, may be
called, and ends. -/
theorem invoke_heard {surroundings : Surroundings} {index : Nat}
    {dependencies : List (Key × Accessor)} (producer : Producer)
    (surrounded : (Discipline.adding (Moment.Apart blueprint.assembly)
      (Moment.ongoing_apart _)).Surrounded surroundings)
    (own : producer.factory = ⟨blueprint.assembly, index⟩)
    (each : ∀ dependency ∈ dependencies,
      (blueprint.reading index).Respected (dependency.2.read surroundings) fun _ => True)
    (before : Memory) :
    ∃ inner call, Moment.Readings blueprint.assembly blueprint.Defers index inner ∧
      Moment.Calling ⟨blueprint.assembly, index⟩ call ∧
      (producer.invoke surroundings dependencies before).2.history =
        before.history ++ .begun ⟨blueprint.assembly, index⟩ ::
          (inner ++ (call ++ [.ended ⟨blueprint.assembly, index⟩])) := by
  obtain ⟨inner, call, within, added, calls⟩ :=
    Discipline.invoke_adds _ _ producer surrounded each before
  rw [own] at added
  refine ⟨inner, call, within, ?_, added⟩
  split at calls
  · obtain ⟨caused, apart, rfl⟩ := calls
    rw [own]
    exact .reached _ apart
  all_goals
    rw [calls]
    exact .missed

/-- Reading what feeds a factory is a reading for it. -/
theorem Feeds.respected_read {index : Nat} {accessor : Accessor}
    (feeds : blueprint.Feeds base index accessor) (closed : Closed applications base)
    (foreign : ∀ accessor, base accessor → ∀ producer, accessor.producer? = some producer →
      producer.factory.assembly ≠ blueprint.assembly) (depth : Nat) :
    (blueprint.reading index).Respected (accessor.read (surroundings applications depth))
      fun _ => True := by
  have governs := Discipline.apart_governs foreign
  have surrounded := governs.surrounded trivial closed depth
  have latches := Discipline.latching_surrounded applications depth
  induction feeds with
  | outside known =>
    exact (governs.respected_read trivial closed depth _ known).widen fun _ apart =>
      apart.readings _ _
  | constant => exact Discipline.respected_done trivial
  | @deferred index next accessor producer deferred makes own _ below =>
    have invoked (dependencies : List (Key × Accessor))
        (each : ∀ dependency ∈ dependencies, (blueprint.reading next).Respected
          (dependency.2.read (surroundings applications depth)) fun _ => True) :
        (blueprint.reading index).Respected
          (producer.invoke (surroundings applications depth) dependencies)
          fun handle => handle.type = producer.key.type := by
      refine Discipline.respected_of_passes trivial (fun before _ => ?_)
        fun _ _ _ => Producer.type_of_invoke
      obtain ⟨inner, call, within, calling, added⟩ :=
        invoke_heard producer surrounded own each before
      exact ⟨trivial, _, .work deferred within calling (.nil index), added⟩
    cases accessor with
    | constant id handle => cases makes
    | prototype id maker dependencies =>
      obtain rfl := Option.some.inj makes
      exact (invoked dependencies below).mono fun _ _ => trivial
    | lazy id maker dependencies =>
      obtain rfl := Option.some.inj makes
      have remembers : (blueprint.reading index).Remembers id maker.key.type fun _ => True :=
        ⟨fun _ _ _ _ => trivial,
          fun _ _ _ _ _ => ⟨trivial, [], .nil index, (List.append_nil _).symm⟩⟩
      rw [latches.read_lazy]
      exact remembers.respected_recalling (invoked dependencies below) fun _ _ => trivial

/-- Every link leads from a dependency of a factory. -/
def Accounted (blueprint : Blueprint) : Prop :=
  ∀ index link, link ∈ blueprint.links.getD index [] → ∃ entry factory key,
    blueprint.entries[index]? = some entry ∧ entry.origin = .made factory ∧
      (key, link) ∈ blueprint.linked ⟨index⟩ entry

/-- The producer behind the entry is one on which the factory depends, if it is a factory. -/
def Follows (blueprint : Blueprint) (index : Nat) (id : EntryId) : Prop :=
  ∀ provider, blueprint.entries[(producer blueprint.entries id).index]? = some provider →
    provider.isFactory = true →
      (producer blueprint.entries id).index ∈ blueprint.graph index

variable {assembly : Assembly} {compiled : Compiled} {id : EntryId} {accessor : Accessor}
  {index next : Nat}

theorem not_constant {entry : Entry} (found : blueprint.entries[index]? = some entry)
    (other : entry.isFactory = true → entry.effectiveMode blueprint.defaultMode ≠ .constant) :
    ¬ blueprint.Constant index := by
  rintro ⟨same, place, factory, mode⟩
  obtain rfl := Option.some.inj (found.symm.trans place)
  exact other factory mode

/-- A factory defers to the producer behind its dependency, unless that is a constant. -/
theorem Follows.defers (follows : blueprint.Follows index id) {entry : Entry} {factory : Factory}
    (found : blueprint.entries[(producer blueprint.entries id).index]? = some entry)
    (origin : entry.origin = .made factory) {mode : InstantiationMode}
    (fixed : entry.effectiveMode blueprint.defaultMode = mode) (other : mode ≠ .constant) :
    blueprint.Defers index (producer blueprint.entries id).index :=
  ⟨follows entry found (entry.isFactory_iff.mpr ⟨factory, origin⟩),
    not_constant found fun _ => fixed ▸ other⟩

theorem follows_of_mem_links {link : EntryId} (member : link ∈ blueprint.links.getD index []) :
    blueprint.Follows index link := by
  intro provider found factory
  refine List.mem_filterMap.mpr ⟨_, List.mem_map_of_mem member, ?_⟩
  simp [found, factory]

/-- An edge of the graph goes through a link, and perhaps through a delegate. -/
theorem Accounted.needs_of_edge (accounted : blueprint.Accounted)
    (edge : next ∈ blueprint.graph index) : TransGen blueprint.Needs index next := by
  obtain ⟨behind, member, taken⟩ := List.mem_filterMap.mp edge
  obtain ⟨link, linked, rfl⟩ := List.mem_map.mp member
  obtain ⟨entry, factory, key, found, origin, among⟩ := accounted index link linked
  have first : blueprint.Needs index link.index := .link found origin among
  split at taken
  · obtain rfl := Option.some.inj taken
    unfold producer
    split
    · rename_i target delegates
      obtain ⟨provider, place, origin⟩ := Option.map_eq_some_iff.mp delegates
      exact .tail (.single first) (.target place origin)
    · exact .single first
  · cases taken

theorem Accounted.needs_of_leadsTo (accounted : blueprint.Accounted)
    (leads : LeadsTo blueprint.graph index next) : TransGen blueprint.Needs index next := by
  induction leads with
  | single edge => exact accounted.needs_of_edge edge
  | tail _ edge ih => exact ih.trans (accounted.needs_of_edge edge)

/-- What a prepared factory needs is compiled. -/
theorem Prepares.exists_accessor {mode : InstantiationMode} {factory : Factory}
    {dependencies : List (Key × Accessor)}
    (prepares : blueprint.Prepares mode compiled id entry factory dependencies)
    (needs : blueprint.Needs id.index next) : ∃ accessor, compiled ⟨next⟩ = some accessor := by
  cases needs with
  | target found origin =>
    obtain rfl := Option.some.inj (prepares.found.symm.trans found)
    rw [prepares.origin] at origin
    cases origin
  | link found _ member =>
    obtain rfl := Option.some.inj (prepares.found.symm.trans found)
    exact prepares.covers.exists_accessor member

/-- What a compiled entry needs is compiled. -/
theorem Shaped.exists_accessor (shaped : blueprint.Shaped applications compiled)
    (known : compiled id = some accessor) (needs : blueprint.Needs id.index next) :
    ∃ accessor, compiled ⟨next⟩ = some accessor := by
  cases needs with
  | target found origin =>
    have shape := shaped.shape found known
    rw [origin] at shape
    exact ⟨accessor, shape⟩
  | link found origin member =>
    have shape := shaped.shape found known
    rw [origin] at shape
    obtain ⟨dependencies, covers, -⟩ := shape
    exact covers.exists_accessor member

/-- Everything that a prepared factory reaches is compiled. -/
theorem Shaped.exists_accessor_of_leadsTo (shaped : blueprint.Shaped applications compiled)
    (accounted : blueprint.Accounted)
    (first : ∀ next, blueprint.Needs index next → ∃ accessor, compiled ⟨next⟩ = some accessor)
    (leads : LeadsTo blueprint.graph index next) : ∃ accessor, compiled ⟨next⟩ = some accessor := by
  have needs := accounted.needs_of_leadsTo leads
  clear leads
  induction needs with
  | single needs => exact first _ needs
  | tail _ needs ih =>
    obtain ⟨accessor, known⟩ := ih
    exact shaped.exists_accessor known needs

/-- What is compiled feeds every factory that depends on it. -/
theorem Shaped.feeds (shaped : blueprint.Shaped applications compiled)
    (sound : blueprint.Sound assembly)
    (imports : ∀ imported, assembly.Imports imported → base imported.accessor)
    (known : compiled id = some accessor) (follows : blueprint.Follows index id) :
    blueprint.Feeds base index accessor := by
  induction accessor using Accessor.induction_on_dependencies generalizing id index with
  | step accessor below =>
    obtain ⟨entry, found, -, shape, direct⟩ := shaped.exists_producer sound known
    cases origin : entry.origin with
    | given handle =>
      rw [origin] at shape
      obtain ⟨number, rfl⟩ := shape
      exact .constant number handle
    | delegate target =>
      cases target with
      | entry target => exact absurd origin (direct target)
      | foreign imported =>
        rw [origin] at shape
        subst shape
        exact .outside (imports imported (sound.foreign found origin).1)
    | made factory =>
      rw [origin] at shape
      obtain ⟨dependencies, covers, works⟩ := shape
      have fed (dependency : Key × Accessor) (member : dependency ∈ dependencies)
          (held : dependency ∈ accessor.dependencies) :
          blueprint.Feeds base (producer blueprint.entries id).index dependency.2 := by
        obtain ⟨link, among, -, held'⟩ := exists_of_forall₂_right covers member
        exact below dependency held held' (follows_of_mem_links (List.of_mem_zip among).2)
      cases mode : entry.effectiveMode blueprint.defaultMode with
      | constant =>
        rw [mode] at works
        obtain ⟨number, handle, before, after, rfl, -⟩ := works
        exact .constant number handle
      | lazy =>
        rw [mode] at works
        obtain ⟨number, rfl⟩ := works
        exact .deferred (follows.defers found origin mode (by decide)) rfl rfl
          fun dependency member => fed dependency member member
      | prototype =>
        rw [mode] at works
        obtain ⟨number, rfl⟩ := works
        exact .deferred (follows.defers found origin mode (by decide)) rfl rfl
          fun dependency member => fed dependency member member

end Blueprint

end Wiring
