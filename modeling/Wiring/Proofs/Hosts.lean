import Mathlib.Data.List.Find
import Wiring.Host
import Wiring.Proofs.Builds
import Wiring.Proofs.Declaring
import Wiring.Proofs.Progress

/-!
The states that a host can reach, by any declarations, builds and questions in any order. In each
of them the accessors of all pools form an arena, every entry of a pool has the type of its key,
and the assembly that is being declared is well formed and has called no factory yet.
-/

namespace Wiring

open Relation

/-- The accessor and everything that it depends on. -/
inductive Accessor.Within (outer : Accessor) : Accessor → Prop
  | self : Within outer outer
  | deeper {middle : Accessor} {dependency : Key × Accessor} (within : Within outer middle)
      (member : dependency ∈ middle.dependencies) : Within outer dependency.2

/-- The entry stands in a layer of the pool. -/
def Pool.Holds (pool : Pool) (entry : RuntimeEntry) : Prop :=
  ∃ layer ∈ pool.layers, ∃ item ∈ layer.entries, item.2 = entry

/-- Every entry of the pool stands under its own key, and its accessor has the type of the key. -/
def Pool.Typed (pool : Pool) : Prop :=
  ∀ layer ∈ pool.layers, ∀ item ∈ layer.entries,
    item.2.key = item.1 ∧ item.2.accessor.type = item.1.type

/-- The pool is one of the scopes or that of the exports. -/
def Application.Has (application : Application) (pool : Pool) : Prop :=
  pool ∈ application.pools ∨ pool = application.exports

namespace Host

/-- The pool belongs to an application of the host, be it one whose bundles were broken off. -/
def Offers (host : Host) (pool : Pool) : Prop :=
  ∃ application ∈ host.applications, application.Has pool

/-- The accessor stands in a pool of the host, or below one that does. -/
def Knows (host : Host) (accessor : Accessor) : Prop :=
  ∃ pool entry, host.Offers pool ∧ pool.Holds entry ∧ entry.accessor.Within accessor

/-- What a host may do next. A declaration imports from pools of the host. -/
inductive Moves : Host → Host → Prop
  | start (host : Host) (config : Config) : Moves host (host.start config)
  | addScope (host : Host) (name : String) (parent : ScopeId) :
      Moves host (host.declare (Declaring.addScope name parent)).2
  | declare (host : Host) (scope : ScopeId) (declaration : Declaration)
      (draws : declaration.Draws host.Offers) :
      Moves host (host.declare (declareIn scope declaration)).2
  | build (host : Host) : Moves host host.build.2
  | ask (host : Host) (path : PoolPath) (query : PoolQuery) : Moves host (host.ask path query).2
  | collect (host : Host) : Moves host host.collect.2.2

/-- What a host may come to be, after any number of moves. -/
abbrev Leads : Host → Host → Prop := ReflTransGen Moves

/-- A state of some host since its beginning. -/
def Reachable (host : Host) : Prop := ∃ patience, Leads (patient patience) host

/-- An assembly was begun under the number. -/
def Begun (host : Host) (number : Nat) : Prop := number < host.begun

/-- An assembly was begun under the number, and is not being declared any more. -/
def Spent (host : Host) (number : Nat) : Prop :=
  host.Begun number ∧ ∀ assembly, host.assembly = some assembly → assembly.number ≠ number

/-- What holds of a host in every state. -/
structure Sound (host : Host) : Prop where
  arena : Arena host.Spent host.Knows host.memory
  typed : ∀ pool, host.Offers pool → pool.Typed
  wellFormed : ∀ assembly, host.assembly = some assembly → assembly.WellFormed host.Offers
  number : ∀ assembly, host.assembly = some assembly → host.Begun assembly.number

end Host

/-- What a family holds, it holds with all that is within. -/
theorem Accessor.Within.of_closed {known : Accessor → Prop} {outer inner : Accessor}
    (within : outer.Within inner)
    (closed : ∀ accessor, known accessor → ∀ dependency ∈ accessor.dependencies,
      known dependency.2) (member : known outer) : known inner := by
  induction within with
  | self => exact member
  | deeper _ among ih => exact closed _ ih _ among

theorem Layer.mem_of_find? {layer : Layer} {key : Key} {entry : RuntimeEntry}
    (found : layer.find? key = some entry) :
    ∃ item ∈ layer.entries, item.2 = entry ∧ item.1 = key :=
  ⟨(key, entry), mem_of_find?_keyed found, rfl, rfl⟩

theorem Pool.holds_of_find? {pool : Pool} {key : Key} {entry : RuntimeEntry}
    (found : pool.find? key = some entry) : pool.Holds entry := by
  obtain ⟨layer, member, held⟩ := List.exists_of_findSome?_eq_some found
  obtain ⟨item, among, same, -⟩ := Layer.mem_of_find? held
  exact ⟨layer, member, item, among, same⟩

/-- What is found under a key has that key and its type. -/
theorem Pool.Typed.of_find? {pool : Pool} (typed : pool.Typed) {key : Key} {entry : RuntimeEntry}
    (found : pool.find? key = some entry) : entry.key = key ∧ entry.accessor.type = key.type := by
  obtain ⟨layer, member, held⟩ := List.exists_of_findSome?_eq_some found
  obtain ⟨item, among, rfl, rfl⟩ := Layer.mem_of_find? held
  exact typed layer member item among

theorem Pool.mem_nearest {pairs : List (Layer × RuntimeEntry)} {seen : List Key}
    {pair : Layer × RuntimeEntry} (member : pair ∈ nearest pairs seen) : pair ∈ pairs := by
  induction pairs generalizing seen with
  | nil => cases member
  | cons first rest ih =>
    unfold nearest at member
    split at member
    · exact List.mem_cons_of_mem _ (ih member)
    · rcases List.mem_cons.mp member with rfl | later
      · exact List.mem_cons_self
      · exact List.mem_cons_of_mem _ (ih later)

theorem Pool.holds_of_visible {pool : Pool} {entry : RuntimeEntry}
    (visible : entry ∈ pool.visibleEntries) : pool.Holds entry := by
  obtain ⟨pair, walked, rfl⟩ := List.mem_map.mp visible
  obtain ⟨layer, member, listed⟩ := List.mem_flatMap.mp (mem_nearest walked)
  obtain ⟨other, among, rfl⟩ := List.mem_map.mp listed
  obtain ⟨item, place, same⟩ := List.mem_map.mp among
  exact ⟨layer, member, item, place, same⟩

/-- The nearest pairs are those that come first under their key, when it was not seen before. -/
theorem Pool.mem_nearest_iff {pairs : List (Layer × RuntimeEntry)} {seen : List Key}
    {pair : Layer × RuntimeEntry} : pair ∈ nearest pairs seen ↔
      (pairs.find? fun other => other.2.key == pair.2.key) = some pair ∧ pair.2.key ∉ seen := by
  induction pairs generalizing seen with
  | nil => simp [nearest]
  | cons first rest ih =>
    unfold nearest
    rw [List.find?_cons]
    by_cases same : first.2.key = pair.2.key
    · have later : pair ∉ nearest rest (first.2.key :: seen) := by
        rw [ih, same]
        exact fun held => held.2 List.mem_cons_self
      simp only [same, beq_self_eq_true, Option.some.injEq, List.contains_iff_mem] at later ⊢
      split
      · rename_i known
        rw [ih]
        exact ⟨fun held => absurd known held.2, fun held => absurd known held.2⟩
      · rename_i fresh
        rw [List.mem_cons, or_iff_left later]
        exact ⟨fun held => ⟨held.symm, fresh⟩, fun held => held.1.symm⟩
    · rw [beq_eq_false_iff_ne.mpr same]
      split
      · exact ih
      · rw [List.mem_cons, ih, List.mem_cons, not_or]
        constructor
        · rintro (rfl | ⟨found, -, fresh⟩)
          · exact absurd rfl same
          · exact ⟨found, fresh⟩
        · rintro ⟨found, fresh⟩
          exact .inr ⟨found, fun other => same other.symm, fresh⟩

/-- No two of the nearest pairs have one key. -/
theorem Pool.nodup_nearest (pairs : List (Layer × RuntimeEntry)) (seen : List Key) :
    ((nearest pairs seen).map fun pair => pair.2.key).Nodup := by
  induction pairs generalizing seen with
  | nil => exact List.nodup_nil
  | cons first rest ih =>
    unfold nearest
    split
    · exact ih seen
    · refine List.nodup_cons.mpr ⟨fun member => ?_, ih _⟩
      obtain ⟨pair, later, same⟩ := List.mem_map.mp member
      exact (mem_nearest_iff.mp later).2 (same ▸ List.mem_cons_self)

theorem Pool.nodup_visibleEntries (pool : Pool) :
    (pool.visibleEntries.map RuntimeEntry.key).Nodup := by
  rw [visibleEntries, List.map_map]
  exact nodup_nearest _ _

/-- The layer is the nearest one that has an entry under the key of the entry, and it has the entry
there. -/
def Pool.Nearest (pool : Pool) (layer : Layer) (entry : RuntimeEntry) : Prop :=
  ∃ nearer farther, pool.layers = nearer ++ layer :: farther ∧
    layer.find? entry.key = some entry ∧ ∀ other ∈ nearer, other.find? entry.key = none

theorem Pool.find?_eq_some_iff {pool : Pool} {entry : RuntimeEntry} :
    pool.find? entry.key = some entry ↔ ∃ layer, pool.Nearest layer entry := by
  rw [find?, List.findSome?_eq_some_iff]
  constructor
  · rintro ⟨nearer, layer, farther, split, held, first⟩
    exact ⟨layer, nearer, farther, split, held, first⟩
  · rintro ⟨layer, nearer, farther, split, held, first⟩
    exact ⟨nearer, layer, farther, split, held, first⟩

/-- A walk comes to each entry in the nearest layer that has one under its key. -/
theorem Pool.Typed.mem_walk {pool : Pool} (typed : pool.Typed) {layer : Layer}
    {entry : RuntimeEntry} : (layer, entry) ∈ pool.walk ↔ pool.Nearest layer entry := by
  have layered (layer : Layer) (member : layer ∈ pool.layers) (key : Key) :
      (layer.listed.map fun entry => (layer, entry)).find? (fun pair => pair.2.key == key) =
        (layer.find? key).map fun entry => (layer, entry) := by
    have keys : layer.entries.find? (fun item => item.2.key == key) =
        layer.entries.find? fun item => item.1 == key :=
      List.find?_congr fun item among => by rw [(typed layer member item among).1]
    unfold Layer.listed Layer.find?
    rw [← keys, List.find?_map, List.find?_map]
    rfl
  have among {nearer farther : List Layer} {other : Layer}
      (split : pool.layers = nearer ++ other :: farther) :
      other ∈ pool.layers ∧ ∀ layer ∈ nearer, layer ∈ pool.layers := by
    rw [split]
    exact ⟨by simp, fun layer member => List.mem_append_left _ member⟩
  rw [walk, mem_nearest_iff, and_iff_left List.not_mem_nil, List.find?_flatMap,
    List.findSome?_eq_some_iff]
  constructor
  · rintro ⟨nearer, other, farther, split, held, first⟩
    rw [layered other (among split).1, Option.map_eq_some_iff] at held
    obtain ⟨found, here, same⟩ := held
    obtain ⟨rfl, rfl⟩ := Prod.mk.inj same
    refine ⟨nearer, farther, split, here, fun layer member => ?_⟩
    have missing := first layer member
    rwa [layered layer ((among split).2 layer member), Option.map_eq_none_iff] at missing
  · rintro ⟨nearer, farther, split, held, first⟩
    refine ⟨nearer, layer, farther, split, ?_, fun other member => ?_⟩
    · rw [layered layer (among split).1, held]
      rfl
    · rw [layered other ((among split).2 other member), first other member]
      rfl

/-- The visible entries are those that are found under their own keys. -/
theorem Pool.Typed.mem_visibleEntries {pool : Pool} (typed : pool.Typed) {entry : RuntimeEntry} :
    entry ∈ pool.visibleEntries ↔ pool.find? entry.key = some entry := by
  rw [visibleEntries, List.mem_map, find?_eq_some_iff]
  constructor
  · rintro ⟨⟨layer, entry⟩, walked, rfl⟩
    exact ⟨layer, typed.mem_walk.mp walked⟩
  · rintro ⟨layer, nearest⟩
    exact ⟨(layer, entry), typed.mem_walk.mpr nearest, rfl⟩

theorem Application.has_of_pool? {application : Application} {name : PoolName} {pool : Pool}
    (found : application.pool? name = some pool) : application.Has pool := by
  obtain ⟨position, -, place⟩ := Option.bind_eq_some_iff.mp found
  cases position with
  | scope index => exact .inl (List.mem_of_getElem? place)
  | exports => exact .inr (Option.some.inj place).symm

/-- A build gave its application when all the bundles have finished. -/
theorem Built.of_eq_application {index number : Nat} {given application : Application}
    (same : Built.of index given = .application number application) :
    given = application ∧ application.halt = none := by
  unfold Built.of at same
  cases whole : given.halt with
  | none =>
    rw [whole] at same
    cases same
    exact ⟨rfl, whole⟩
  | some halt =>
    rw [whole] at same
    cases halt <;> cases same

/-- The application of a build that came to one. -/
def Ending.given : Ending BuildError Application → List Application
  | .value application => [application]
  | .error _ => []
  | .panic _ => []
  | .exhausted => []

namespace Host

variable {host after : Host}

theorem exists_has_of_resolve? {path : PoolPath} {applications : List Application} {pool : Pool}
    (place : path.resolve? applications = some pool) :
    ∃ application ∈ applications, application.Has pool := by
  obtain ⟨application, found, named⟩ := Option.bind_eq_some_iff.mp place
  exact ⟨application, List.mem_of_mem_filter (List.mem_of_getElem? found),
    Application.has_of_pool? named⟩

theorem offers_of_resolve? {path : PoolPath} {pool : Pool}
    (place : path.resolve? host.applications = some pool) : host.Offers pool :=
  exists_has_of_resolve? place

theorem knows_of_find? {pool : Pool} (offers : host.Offers pool) {key : Key} {entry : RuntimeEntry}
    (found : pool.find? key = some entry) : host.Knows entry.accessor :=
  ⟨pool, entry, offers, Pool.holds_of_find? found, .self⟩

/-- The accessors that a host knows are a family of its pools. -/
theorem closed (host : Host) : Closed host.applications host.Knows where
  dependencies accessor knows dependency member := by
    obtain ⟨pool, entry, offers, holds, within⟩ := knows
    exact ⟨pool, entry, offers, holds, within.deeper member⟩
  visible path pool key entry place found := knows_of_find? (offers_of_resolve? place) found

/-- A declaration changes the assembly and reports its events. -/
theorem declare_eq (host : Host) {α : Type} (declaring : Declaring α) :
    (host.declare declaring).2 =
      match host.assembly with
      | none => host
      | some assembly =>
        { host with
          assembly := some (declaring (assembly, [])).2.1
          memory := (declaring (assembly, [])).2.2.foldl Memory.report host.memory } := by
  unfold Host.declare
  cases host.assembly <;> rfl

/-- A question changes the memory. -/
theorem ask_eq (host : Host) (path : PoolPath) (query : PoolQuery) :
    (host.ask path query).2 =
      match path.resolve? host.applications with
      | none => host
      | some pool =>
        { host with memory := (pool.answer host.applications query host.memory).2 } := by
  unfold Host.ask
  cases path.resolve? host.applications with
  | none => rfl
  | some pool =>
    dsimp only
    rcases pool.answer host.applications query host.memory with ⟨ending, memory⟩
    cases ending with
    | error error => cases error
    | value answer => rfl
    | panic message => rfl
    | exhausted => rfl

/-- A build uses the assembly up, and adds the application that it gives. -/
theorem build_eq (host : Host) :
    host.build.2 =
      match host.assembly with
      | none => host
      | some assembly =>
        { host with
          assembly := none
          applications :=
            host.applications ++ (assembly.build host.applications host.memory).1.given
          memory := (assembly.build host.applications host.memory).2 } := by
  unfold Host.build
  cases host.assembly with
  | none => rfl
  | some assembly =>
    dsimp only
    rcases assembly.build host.applications host.memory with ⟨ending, memory⟩
    cases ending <;> simp [Ending.given]

/-- What holds of a host with each outcome of a build holds of the host after the build. -/
theorem build_of_yields {assembly : Assembly} (current : host.assembly = some assembly)
    {motive : Host → Prop}
    (yields : (assembly.build host.applications).Yields host.memory
      (fun application after =>
        motive ⟨host.begun, none, host.applications ++ [application], after⟩)
      (fun _ after => motive ⟨host.begun, none, host.applications, after⟩)
      (fun after => motive ⟨host.begun, none, host.applications, after⟩)) :
    motive host.build.2 := by
  unfold Attempt.Yields at yields
  rw [build_eq, current]
  dsimp only
  generalize assembly.build host.applications host.memory = result at yields ⊢
  obtain ⟨ending, after⟩ := result
  cases ending with
  | value application => exact yields
  | error error => simpa [Ending.given] using yields
  | panic message => simpa [Ending.given] using yields
  | exhausted => simpa [Ending.given] using yields

/-- Reading keeps the arena of a host. -/
theorem serves (host : Host) {pool : Pool} (offers : host.Offers pool) :
    (Discipline.arena host.Spent host.Knows).Serves host.applications Accessor.Makes pool :=
  fun _ entry found => (Arena.governs host.Spent host.Knows).respected_value trivial host.closed
    entry.accessor (knows_of_find? offers found)

namespace Sound

/-- Nothing that a host knows was made by a factory of the assembly that is being declared. -/
theorem assembly_ne (sound : host.Sound) {assembly : Assembly}
    (current : host.assembly = some assembly) {accessor : Accessor} (knows : host.Knows accessor)
    {producer : Producer} (makes : accessor.producer? = some producer) :
    producer.factory.assembly ≠ assembly.number :=
  fun own => (sound.arena.made accessor knows producer makes).2 assembly current own.symm

/-- A change of the memory alone. -/
theorem remember (sound : host.Sound) {memory : Memory}
    (arena : Arena host.Spent host.Knows memory) : Sound { host with memory := memory } :=
  ⟨arena, sound.typed, sound.wellFormed, sound.number⟩

theorem start (sound : host.Sound) (config : Config) : (host.start config).Sound where
  arena := by
    apply sound.arena.mono (fun _ knows => knows)
    intro number spent
    refine ⟨Nat.lt_succ_of_lt spent.1, ?_⟩
    intro _ same
    cases same
    exact Nat.ne_of_gt spent.1
  typed := sound.typed
  wellFormed := by
    intro _ same
    cases same
    exact Assembly.wellFormed_new host.begun config
  number := by
    intro _ same
    cases same
    exact Nat.lt_succ_self _

/-- Declarations that keep the assembly well formed keep the host sound. -/
theorem declare (sound : host.Sound) {α : Type} {declaring : Declaring α}
    {given : α → Assembly → Prop}
    (keeps : ∀ assembly, assembly.WellFormed host.Offers →
      declaring.Keeps host.Offers (assembly, []) given) :
    (host.declare declaring).2.Sound := by
  rw [declare_eq]
  cases current : host.assembly with
  | none => exact sound
  | some assembly =>
    have advances : assembly.Advances host.Offers (declaring (assembly, [])).2.1 :=
      (Attempt.Yields.mono (keeps assembly (sound.wellFormed assembly current))
        (fun _ _ kept => kept.1) (fun _ _ kept => kept) fun _ kept => kept).after
    have like := Assembly.like_foldl_report (declaring (assembly, [])).2.2 host.memory
    refine ⟨?_, sound.typed, ?_, ?_⟩
    · apply (sound.arena.like like).mono (fun _ knows => knows)
      intro number spent
      refine ⟨spent.1, ?_⟩
      intro _ same
      cases same
      rw [advances.number]
      exact spent.2 assembly current
    · intro _ same
      cases same
      exact advances.wellFormed
    · intro _ same
      cases same
      unfold Begun
      rw [advances.number]
      exact sound.number assembly current

theorem ask (sound : host.Sound) (path : PoolPath) (query : PoolQuery) :
    (host.ask path query).2.Sound := by
  rw [ask_eq]
  cases place : path.resolve? host.applications with
  | none => exact sound
  | some pool =>
    have answered := (serves host (offers_of_resolve? place)).respected_answer query
    exact sound.remember (answered.passes sound.arena).1

theorem collect (sound : host.Sound) : host.collect.2.2.Sound :=
  sound.remember (sound.arena.like ⟨rfl, rfl, rfl⟩)

end Sound

theorem sound_patient (patience : Nat) : (patient patience).Sound where
  arena := by
    have unknown (accessor : Accessor) : ¬ (patient patience).Knows accessor := by
      intro knows
      obtain ⟨pool, entry, ⟨application, member, -⟩, -, -⟩ := knows
      cases member
    exact ⟨fun accessor knows => (unknown accessor knows).elim,
      fun left _ knows => (unknown left knows).elim,
      fun accessor knows => (unknown accessor knows).elim,
      fun accessor knows => (unknown accessor knows).elim,
      fun accessor knows => (unknown accessor knows).elim, fun _ _ => rfl,
      fun _ _ member => nomatch member⟩
  typed pool offers := by
    obtain ⟨application, member, -⟩ := offers
    cases member
  wellFormed _ none := nomatch none
  number _ none := nomatch none

end Host

end Wiring
