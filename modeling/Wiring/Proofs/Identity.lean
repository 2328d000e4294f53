import Wiring.Proofs.Apartness
import Wiring.Proofs.Backing
import Wiring.Stock

/-!
Identity through any chain of imports and exports. Every entry of every pool has the accessor, the
mode and the description of one producer, whatever way it came; and two entries share an accessor
only if they have one producer, or come from entries of built pools that share one.
-/

namespace Wiring

theorem RuntimeEntry.sharesAccessor_iff {left right : RuntimeEntry} :
    left.sharesAccessor right = true ↔ left.accessor.id = right.accessor.id := by
  simp [sharesAccessor, Accessor.same]

namespace Host

/-- The entry stands in a pool of the host. -/
def Shows (host : Host) (entry : RuntimeEntry) : Prop := ∃ pool, host.Offers pool ∧ pool.Holds entry

/-- Entries of built pools that share an accessor have one description. -/
def Labelled (host : Host) : Prop :=
  ∀ left right, host.Shows left → host.Shows right → left.accessor.id = right.accessor.id →
    left.description = right.description

variable {host : Host} {assembly : Assembly} {application : Application}
  {state : Memory × Compiled} {entry entry' : RuntimeEntry} {target target' : Delegate}

theorem Shows.knows (shows : host.Shows entry) : host.Knows entry.accessor := by
  obtain ⟨pool, offers, holds⟩ := shows
  exact ⟨pool, entry, offers, holds, .self⟩

/-- What is imported stands in a built pool. -/
theorem Sound.shows_imported (sound : host.Sound) (current : host.assembly = some assembly)
    (imports : assembly.Imports entry) : host.Shows entry :=
  sound.offers_imported current imports

/-- The accessor of a provider was made for it. -/
theorem Sound.owns (sound : host.Sound) (current : host.assembly = some assembly) {id : EntryId}
    {provider : Entry} (declared : assembly.entries[id.index]? = some provider)
    {accessor : Accessor} (known : state.2 id = some accessor) :
    (assembly.blueprint assembly.survey).Owns state.2 id accessor := by
  have proper := (sound.wellFormed assembly current).entries id.index provider declared
  exact ⟨known, provider, sound.found current declared, proper.isDelegate⟩

/-- The producers of a compiled application are apart from each other and from built pools. -/
theorem Sound.apart (sound : host.Sound) (current : host.assembly = some assembly)
    (compiles : assembly.Compiles host.applications host.memory application state) :
    (assembly.blueprint assembly.survey).Apart host.Knows state.2 :=
  compiles.steps.apart (sound.grounded current compiles.accepted) (sound.announced assembly)

/-- Entries share an accessor when they trace back to one producer, and only then. -/
theorem Sound.shares_iff (sound : host.Sound) (current : host.assembly = some assembly)
    (compiles : assembly.Compiles host.applications host.memory application state)
    {type type' : ServiceType} (provides : target.Provides assembly type)
    (provides' : target'.Provides assembly type')
    (traces : application.Traces assembly entry target)
    (traces' : application.Traces assembly entry' target') :
    entry.sharesAccessor entry' = true ↔ target.Same target' := by
  have wellFormed := sound.wellFormed assembly current
  have apart := sound.apart current compiles
  have backs := compiles.backs_of_traces wellFormed traces
  have backs' := compiles.backs_of_traces wellFormed traces'
  -- A producer of the assembly shares no accessor with an imported one.
  have foreign {id : EntryId} {accessor : Accessor} {provider : Entry} {imported : RuntimeEntry}
      (declared : assembly.entries[id.index]? = some provider) (known : state.2 id = some accessor)
      (imports : assembly.Imports imported) : accessor.id ≠ imported.accessor.id :=
    apart.foreign (sound.owns current declared known) (sound.shows_imported current imports).knows
  rw [RuntimeEntry.sharesAccessor_iff]
  cases target with
  | entry id =>
    obtain ⟨provider, declared, -⟩ := provides
    cases target' with
    | entry id' =>
      obtain ⟨provider', declared', -⟩ := provides'
      rw [Delegate.same_entry]
      constructor
      · exact apart.own (sound.owns current declared backs) (sound.owns current declared' backs')
      · rintro rfl
        have same : some entry.accessor = some entry'.accessor := backs.symm.trans backs'
        exact congrArg Accessor.id (Option.some.inj same)
    | foreign imported =>
      have different := foreign declared backs provides'.1
      rw [← (backs' : entry'.accessor = imported.accessor)] at different
      exact ⟨fun same => absurd same different, False.elim⟩
  | foreign imported =>
    have here : entry.accessor = imported.accessor := backs
    cases target' with
    | entry id' =>
      obtain ⟨provider', declared', -⟩ := provides'
      have different := foreign declared' backs' provides.1
      rw [← here] at different
      exact ⟨fun same => absurd same.symm different, False.elim⟩
    | foreign imported' =>
      have there : entry'.accessor = imported'.accessor := backs'
      rw [Delegate.same_foreign, here, there]

/-- Every entry of a compiled application traces back to a producer that came to some scope or to
the public. -/
theorem Sound.exists_target (sound : host.Sound) (current : host.assembly = some assembly)
    (compiles : assembly.Compiles host.applications host.memory application state)
    (describes : assembly.Describes application) {pool : Pool} (has : application.Has pool)
    (holds : pool.Holds entry) : ∃ receiver key target, assembly.Exposes receiver key target ∧
      application.Traces assembly entry target := by
  have wellFormed := sound.wellFormed assembly current
  obtain ⟨layer, member, item, among, rfl⟩ := holds
  obtain ⟨owner, has, rfl⟩ := compiles.exists_owner has layer member
  obtain ⟨receiver, found⟩ : ∃ receiver, application.poolFor? receiver = some owner := by
    rcases has with listed | rfl
    · obtain ⟨index, place⟩ := List.getElem?_of_mem listed
      exact ⟨some ⟨index⟩, place⟩
    · exact ⟨none, rfl⟩
  obtain ⟨target, exposes, traces⟩ :=
    compiles.exists_target describes wellFormed sound.typed found among
  exact ⟨receiver, item.1, target, exposes, traces⟩

/-- An entry that a built pool shows after a build has the accessor and the description of one that
was shown before, or those of a provider. -/
theorem Sound.shows_build (sound : host.Sound) (current : host.assembly = some assembly)
    (compiles : assembly.Compiles host.applications host.memory application state)
    (describes : assembly.Describes application) {pool : Pool}
    (offers : ∃ other ∈ host.applications ++ [application], other.Has pool)
    (holds : pool.Holds entry) :
    (∃ known, host.Shows known ∧ entry.accessor = known.accessor ∧
        entry.description = known.description) ∨
      ∃ id provider, assembly.entries[id.index]? = some provider ∧
        state.2 id = some entry.accessor ∧ entry.description = provider.description := by
  have wellFormed := sound.wellFormed assembly current
  obtain ⟨other, member, has⟩ := offers
  rcases List.mem_append.mp member with old | new
  · exact .inl ⟨entry, ⟨pool, ⟨other, old, has⟩, holds⟩, rfl, rfl⟩
  · rw [List.mem_singleton.mp new] at has
    obtain ⟨receiver, key, target, exposes, traces⟩ :=
      sound.exists_target current compiles describes has holds
    have backs := compiles.backs_of_traces wellFormed traces
    obtain ⟨type, provides⟩ := exposes.provides wellFormed sound.typed
    cases traces with
    | imported accessor _ description =>
      exact .inl ⟨_, sound.shows_imported current provides.1, accessor, description⟩
    | declared found _ _ _ _ description => exact .inr ⟨_, _, found, backs, description⟩

theorem Labelled.of_same {after : Host} (labelled : host.Labelled)
    (same : after.applications = host.applications) : after.Labelled := by
  unfold Labelled Shows Offers at *
  rwa [same]

/-- A build keeps the entries labelled. -/
theorem Labelled.build (labelled : host.Labelled) (sound : host.Sound) :
    host.build.2.Labelled := by
  cases current : host.assembly with
  | none =>
    rw [build_eq, current]
    exact labelled
  | some assembly =>
    refine build_of_yields (motive := fun after => after.Labelled) current
      (((sound.build_yields current).of_gives (assembly.gives_build host.applications)).mono ?_
        (fun _ _ _ => labelled) fun _ _ => labelled)
    intro application after yielded left right shown shown' same
    obtain ⟨⟨state, compiles, -⟩, describes⟩ := yielded
    obtain ⟨pool, offers, holds⟩ := shown
    obtain ⟨pool', offers', holds'⟩ := shown'
    have apart := sound.apart current compiles
    rcases sound.shows_build current compiles describes offers holds with
      ⟨known, shows, accessor, description⟩ | ⟨id, provider, declared, compiled, description⟩
    · rcases sound.shows_build current compiles describes offers' holds' with
        ⟨known', shows', accessor', description'⟩ | ⟨id', provider', declared', compiled', -⟩
      · rw [accessor, accessor'] at same
        rw [description, description', labelled known known' shows shows' same]
      · have owns := sound.owns current declared' compiled'
        rw [accessor] at same
        exact absurd same.symm (apart.foreign owns shows.knows)
    · have owns := sound.owns current declared compiled
      rcases sound.shows_build current compiles describes offers' holds' with
        ⟨known', shows', accessor', -⟩ | ⟨id', provider', declared', compiled', description'⟩
      · rw [accessor'] at same
        exact absurd same (apart.foreign owns shows'.knows)
      · obtain rfl := apart.own owns (sound.owns current declared' compiled') same
        obtain rfl := Option.some.inj (declared.symm.trans declared')
        rw [description, description']

/-- Every move keeps the entries labelled. -/
theorem Labelled.moves {after : Host} (labelled : host.Labelled) (sound : host.Sound)
    (moves : host.Moves after) : after.Labelled := by
  rcases moves.same_or_build with same | rfl
  · exact labelled.of_same same
  · exact labelled.build sound

/-- In every reachable host, entries that share an accessor have one description. -/
theorem Reachable.labelled (reachable : host.Reachable) : host.Labelled := by
  apply reachable.induct
  · intro patience left right shown
    obtain ⟨pool, ⟨application, member, -⟩, -⟩ := shown
    cases member
  · intro before after sound moves labelled
    exact labelled.moves sound moves

/-- What traces back to a producer traces back to every delegate that has the same producer. -/
theorem Sound.traces_of_same (sound : host.Sound) (labelled : host.Labelled)
    (current : host.assembly = some assembly) {type type' : ServiceType}
    (provides : target.Provides assembly type) (provides' : target'.Provides assembly type')
    (traces : application.Traces assembly entry target) (same : target.Same target') :
    application.Traces assembly entry target' := by
  cases target with
  | entry id =>
    cases target' with
    | foreign imported => exact same.elim
    | entry id' =>
      obtain rfl : id = id' := same
      exact traces
  | foreign imported =>
    cases target' with
    | entry id => exact same.elim
    | foreign imported' =>
      have shows := sound.shows_imported current provides.1
      have shows' := sound.shows_imported current provides'.1
      have shared := Delegate.same_foreign.mp same
      have one := sound.arena.unique _ _ shows.knows shows'.knows shared
      cases traces with
      | imported accessor mode description =>
        refine .imported (accessor.trans one) (mode.trans (congrArg Accessor.mode one)) ?_
        rw [description, labelled imported imported' shows shows' shared]

/-- Identity is preserved through every chain of imports and exports. In an application that was
built, every registered entry traces back to a producer that came to its place by the declarations,
and every producer that came to a place is traced back to by the entry under its key there. Two
entries share an accessor if and only if their producers are the same entry of the assembly, or
entries of built pools that share an accessor. -/
theorem Reachable.preserves_identity (reachable : host.Reachable)
    (current : host.assembly = some assembly) {number : Nat}
    (built : host.build.1 = some (.application number application)) :
    (∀ (receiver : Option ScopeId) (pool : Pool) (key : Key) (entry : RuntimeEntry),
        application.poolFor? receiver = some pool → (key, entry) ∈ pool.layer.entries →
        ∃ target : Delegate, assembly.Exposes receiver key target ∧
          application.Traces assembly entry target) ∧
      (∀ (receiver : Option ScopeId) (key : Key) (target : Delegate),
        assembly.Exposes receiver key target →
        ∃ (pool : Pool) (entry : RuntimeEntry), application.poolFor? receiver = some pool ∧
          pool.layer.find? key = some entry ∧ application.Traces assembly entry target) ∧
      ∀ (receiver receiver' : Option ScopeId) (key key' : Key) (target target' : Delegate)
        (entry entry' : RuntimeEntry), assembly.Exposes receiver key target →
        assembly.Exposes receiver' key' target' → application.Traces assembly entry target →
        application.Traces assembly entry' target' →
        (entry.sharesAccessor entry' = true ↔ target.Same target') := by
  have sound := reachable.sound
  have wellFormed := sound.wellFormed assembly current
  obtain ⟨state, compiles, describes⟩ := sound.exists_described current built
  refine ⟨fun receiver pool key entry found among => ?_, fun receiver key target exposes => ?_,
    fun receiver receiver' key key' target target' entry entry' exposes exposes' traces traces' =>
      ?_⟩
  · exact compiles.exists_target describes wellFormed sound.typed found among
  · obtain ⟨pool, entry, held, found, listed, other, traces, same⟩ :=
      compiles.exists_entry describes wellFormed sound.typed exposes
    obtain ⟨type, provides⟩ := other.provides wellFormed sound.typed
    obtain ⟨type', provides'⟩ := exposes.provides wellFormed sound.typed
    exact ⟨pool, entry, found, listed,
      sound.traces_of_same reachable.labelled current provides provides' traces same⟩
  · obtain ⟨type, provides⟩ := exposes.provides wellFormed sound.typed
    obtain ⟨type', provides'⟩ := exposes'.provides wellFormed sound.typed
    exact sound.shares_iff current compiles provides provides' traces traces'

/-- A host that is about to build a sum in one scope, which another scope imports under a second key
and exports under a third. -/
def relayed : Host :=
  (Host.new.start (.named "outer")).declareEach
    [.provide (.given (.ofParts .u8 7 "") none) [],
      .link "source" ⟨"source", .nothing⟩ fun _ =>
        [.provide (Signature.adding ⟨.u16, [.u8]⟩) [.describe "the sum"]],
      .link "relay" ⟨"relay", .nothing⟩ fun _ =>
        [.importFrom (.scope ⟨1⟩) [.rebind (.of .u16) (.qualified .u16 "first")],
          .exportRenamed (.qualified .u16 "first") (.qualified .u16 "second")],
      .exportKey (.qualified .u16 "second")]

theorem reachable_relayed : relayed.Reachable :=
  ⟨0, .head (.start _ _) (leads_declareEach _ _ fun _ =>
    ⟨trivial, fun _ => ⟨trivial, trivial⟩, fun _ => ⟨nofun, trivial, trivial⟩, trivial, trivial⟩)⟩

end Host

namespace Assembly

/-- The assembly that this host is about to build. -/
def relayed : Assembly := Host.relayed.assembly.getD (.new 0 (.named ""))

theorem scopes_relayed : relayed.scopes =
    [⟨"outer", none, [⟨1⟩, ⟨2⟩], [⟨0⟩], [], [.same (.qualified .u16 "second")]⟩,
      ⟨"outer/source", some .root, [], [⟨1⟩], [], []⟩,
      ⟨"outer/relay", some .root, [], [],
        [⟨⟨.scope ⟨1⟩, [.rebind (.of .u16) (.qualified .u16 "first")]⟩, some "relay"⟩],
        [.keyed (.qualified .u16 "first") (.qualified .u16 "second")]⟩] := rfl

/-- The sum comes to the public by an import and two exports. -/
theorem exposes_relayed : relayed.Exposes none (.qualified .u16 "second") (.entry ⟨1⟩) := by
  have declared : relayed.Supplies ⟨1⟩ (.of .u16) (.entry ⟨1⟩) := by
    obtain ⟨provider, found, facts⟩ : ∃ provider, relayed.entries[1]? = some provider ∧
        (provider.scope, provider.key) = (⟨1⟩, .of .u16) :=
      Option.map_eq_some_iff.mp (by decide +kernel)
    obtain ⟨home, key⟩ := Prod.mk.inj facts
    have supplies : relayed.Supplies provider.scope provider.key (.entry ⟨1⟩) := .declared found
    rwa [home, key] at supplies
  have imported : relayed.Supplies ⟨2⟩ (.qualified .u16 "first") (.entry ⟨1⟩) :=
    .imported (by rw [scopes_relayed]; rfl) List.mem_cons_self rfl declared (by decide +kernel)
  have renamed : (ExportSpec.keyed (.qualified .u16 "first") (.qualified .u16 "second")).shows
      (.qualified .u16 "first") = some (.qualified .u16 "second") := by simp [ExportSpec.shows]
  have kept : (ExportSpec.same (.qualified .u16 "second")).shows (.qualified .u16 "second") =
      some (.qualified .u16 "second") := by simp [ExportSpec.shows, ExportSpec.same]
  have inner : relayed.Exposes (some .root) (.qualified .u16 "second") (.entry ⟨1⟩) :=
    .exported (by rw [scopes_relayed]; rfl) List.mem_cons_self (.supplied imported) renamed
  exact .exported (by rw [scopes_relayed]; rfl) List.mem_cons_self inner kept

end Assembly

theorem Host.preserves_identity_sample :
    ∃ application entry home own, relayed.build.1 = some (.application 0 application) ∧
      application.exports.layer.find? (.qualified .u16 "second") = some entry ∧
      application.pools[1]? = some home ∧ home.layer.find? (.of .u16) = some own ∧
      entry.accessor = own.accessor ∧ entry.mode = .lazy ∧
      entry.description = some "the sum" := by
  obtain ⟨application, built⟩ := relayed.exists_application (by decide +kernel)
  have current : relayed.assembly = some Assembly.relayed := rfl
  obtain ⟨-, found, -⟩ := reachable_relayed.preserves_identity current built
  obtain ⟨pool, entry, place, listed, traces⟩ := found _ _ _ Assembly.exposes_relayed
  obtain rfl := Option.some.inj place
  cases traces with
  | declared known home own accessor mode description =>
    have facts : Assembly.relayed.entries[1]?.map (fun provider =>
        (provider.scope.index, provider.key, provider.effectiveMode .lazy, provider.description)) =
        some (1, .of .u16, .lazy, some "the sum") := by decide +kernel
    rw [known] at facts
    obtain ⟨scope, key, chosen, text⟩ := by simpa using facts
    rw [Application.poolFor?, scope] at home
    rw [key] at own
    exact ⟨application, entry, _, _, built, listed, home, own, accessor, mode.trans chosen,
      description.trans text⟩

end Wiring
