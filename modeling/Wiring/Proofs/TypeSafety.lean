import Wiring.Proofs.Wards
import Wiring.Stock

/-!
Type safety. Whatever a factory makes, a pool gives only values of the type that the key names, and
every factory receives one value for each declared dependency, in order, under its key and of its
type. So no typed reading of a value or of a parameter is ever refused.
-/

namespace Wiring

open Relation

/-- A reading gives a value of the type of the accessor, when what it remembers has that type. -/
theorem Accessor.type_of_read {accessor : Accessor} {surroundings : Surroundings}
    {memory after : Memory} {handle : Instance}
    (latches : Discipline.latching.Surrounded surroundings)
    (remembered : ∀ handle, memory.cells accessor.id = .ready handle →
      handle.type = accessor.type)
    (reads : accessor.read surroundings memory = (.value handle, after)) :
    handle.type = accessor.type := by
  cases accessor with
  | constant id given =>
    obtain ⟨⟨rfl⟩, -⟩ := Prod.mk.inj reads
    rfl
  | prototype id producer dependencies => exact Producer.type_of_invoke reads
  | lazy id producer dependencies =>
    rw [latches.read_lazy] at reads
    unfold recalling at reads
    cases known : memory.cells id with
    | ready kept =>
      rw [known] at reads
      obtain ⟨⟨rfl⟩, -⟩ := Prod.mk.inj reads
      exact remembered _ known
    | failed error => simp [known] at reads
    | computing => simp [known] at reads
    | empty =>
      simp only [known, settling] at reads
      rcases invokes : producer.invoke surroundings dependencies (memory.store id .computing) with
        ⟨ending, last⟩
      rw [invokes] at reads
      cases ending with
      | value made =>
        obtain ⟨⟨rfl⟩, -⟩ := Prod.mk.inj reads
        exact Producer.type_of_invoke invokes
      | error error => cases reads
      | panic message => cases reads
      | exhausted => cases reads

namespace Host

variable {host : Host} {assembly : Assembly}

/-- What the lazy accessors of the host remember in a memory has their types. -/
def Recalls (host : Host) (memory : Memory) : Prop :=
  ∀ accessor, host.Knows accessor → ∀ handle, memory.cells accessor.id = .ready handle →
    handle.type = accessor.type

/-- What is visible under a key gives values of its type. -/
theorem Sound.type_of_value (sound : host.Sound) {memory after : Memory}
    (recalls : host.Recalls memory) {pool : Pool} (offers : host.Offers pool) {key : Key}
    {entry : RuntimeEntry} (found : pool.find? key = some entry) {handle : Instance}
    (reads : entry.accessor.value host.applications memory = (.value handle, after)) :
    handle.type = key.type := by
  rw [Accessor.value_apply] at reads
  rw [Accessor.type_of_read (Discipline.latching_surrounded _ _)
    (recalls _ (knows_of_find? offers found)) reads]
  exact ((sound.typed pool offers).of_find? found).2

/-- The value under a key has the type of the key. -/
theorem Sound.type_of_getInstance (sound : host.Sound) {memory after : Memory}
    (recalls : host.Recalls memory) {pool : Pool} (offers : host.Offers pool) {key : Key}
    {handle : Instance}
    (gives : pool.getInstance host.applications key memory = (.value (.ok handle), after)) :
    handle.type = key.type := by
  unfold Pool.getInstance Pool.withEntry at gives
  cases found : pool.find? key with
  | none => simp [found] at gives
  | some entry =>
    simp only [found, RuntimeEntry.getInstance, Attempt.bind_apply, Attempt.outcome] at gives
    rcases reads : entry.accessor.value host.applications memory with ⟨ending, last⟩
    rw [reads] at gives
    cases ending with
    | value value =>
      obtain ⟨⟨rfl⟩, -⟩ := Prod.mk.inj gives
      exact sound.type_of_value recalls offers found reads
    | error error => cases gives
    | panic message => cases gives
    | exhausted => cases gives

/-- To ask for the type that the key names asks for nothing more. -/
theorem Sound.get_eq_getInstance (sound : host.Sound) {memory : Memory}
    (recalls : host.Recalls memory) {pool : Pool} (offers : host.Offers pool) {key : Key}
    {entry : RuntimeEntry} (found : pool.find? key = some entry) :
    entry.get host.applications key.type memory = entry.getInstance host.applications memory := by
  simp only [RuntimeEntry.get, RuntimeEntry.getInstance, Attempt.bind_apply, Attempt.outcome]
  rcases reads : entry.accessor.value host.applications memory with ⟨ending, last⟩
  cases ending with
  | value handle =>
    have type := sound.type_of_value recalls offers found reads
    simp [expectType, type]
  | error error => rfl
  | panic message => rfl
  | exhausted => rfl

end Host

/-- Every call of a factory of the assembly was handed the values of its dependencies, each under
its key. -/
def Discipline.keyed (number : Nat) (keys : Nat → List Key) : Discipline where
  holds memory := ∀ entry handed, .called ⟨number, entry⟩ handed ∈ memory.history →
    handed.map Prod.fst = keys entry
  leads := Memory.Grows
  breaks := True
  refl := Memory.Grows.refl
  trans := @Memory.Grows.trans
  like like holds := by
    rw [like.history]
    exact ⟨holds, like.grows⟩

/-- A factory that was called was handed something. -/
theorem Memory.exists_called (memory : Memory) (factory : FactoryId)
    (calls : 0 < memory.calls factory) : ∃ handed, .called factory handed ∈ memory.history := by
  obtain ⟨moment, member, call⟩ := List.countP_pos_iff.mp calls
  cases moment with
  | begun other => cases call
  | ended other => cases call
  | called other handed =>
    obtain rfl : other = factory := by simpa [Moment.isCallOf] using call
    exact ⟨handed, member⟩

/-- A producer of the assembly has the dependencies that its entry declares. -/
def Producer.Keyed (number : Nat) (keys : Nat → List Key) (producer : Producer)
    (dependencies : List (Key × Accessor)) : Prop :=
  producer.factory.assembly = number → dependencies.map Prod.fst = keys producer.factory.entry

/-- The producer of the accessor, if it has one, has the dependencies that its entry declares. -/
def Accessor.Keyed (number : Nat) (keys : Nat → List Key) (accessor : Accessor) : Prop :=
  ∀ producer, accessor.producer? = some producer →
    producer.Keyed number keys accessor.dependencies

namespace Discipline

variable {number : Nat} {keys : Nat → List Key}

/-- A moment keeps the discipline when it hands values over under the right keys. -/
theorem keyed_record {memory : Memory} (holds : (keyed number keys).holds memory) (moment : Moment)
    (fits : ∀ entry handed, moment = .called ⟨number, entry⟩ handed →
      handed.map Prod.fst = keys entry) :
    (keyed number keys).Passes memory (memory.record moment) := by
  refine ⟨fun entry handed member => ?_, Nat.le_refl _⟩
  rcases List.mem_append.mp member with old | new
  · exact holds entry handed old
  · exact fits entry handed (List.mem_singleton.mp new).symm

theorem keyed_permits {producer : Producer} {dependencies : List (Key × Accessor)}
    (admitted : producer.Keyed number keys dependencies)
    (gives : Key × Accessor → Instance → Prop) :
    (keyed number keys).Permits producer gives dependencies where
  begun memory holds := keyed_record holds _ nofun
  called memory values handed holds := by
    apply keyed_record holds _
    intro entry given same
    obtain ⟨factory, rfl⟩ := Moment.called.inj same
    have keys := map_eq_map_of_forall₂ handed fun _ _ fits => fits.1
    rw [keys, admitted (by rw [factory]), factory]
  ended memory holds := keyed_record holds _ nofun

/-- Calls are handed the declared dependencies in every later run. -/
theorem keyed_ward (number : Nat) (keys : Nat → List Key) :
    Ward (keyed number keys) (fun _ _ => True) (Accessor.Keyed number keys)
      (Producer.Keyed number keys) 0 where
  breaks := trivial
  governs _ guarded _ latches surrounded below :=
    surrounded.respected_read latches trivial (fun _ _ => True) below
      (fun producer makes => keyed_permits (guarded producer makes) _)
      ⟨fun _ _ _ _ => trivial, fun _ _ holds _ _ => ⟨holds, Nat.le_refl _⟩⟩ fun _ _ => trivial
  permits _ _ admitted _ := keyed_permits admitted _
  joins _ _ _ admitted := admitted
  counts _ holds := ⟨holds, Nat.le_succ _⟩
  grows _ _ leads := leads

end Discipline

namespace Dependencies

/-- The value at a position is had when it has the expected type. -/
theorem get_eq_ok {dependencies : Dependencies} {index : Nat} {pair : Key × Instance}
    (found : dependencies.values[index]? = some pair) :
    dependencies.get index pair.2.type = .ok pair.2.value.content := by
  simp only [get, handle, found, downcast, Instance.type, Value.as?_self]

/-- Parameters are fetched without a failure from values of their types. -/
theorem parameters_eq_ok {dependencies : Dependencies} {types : List ServiceType}
    (typed : dependencies.values.map (fun pair => pair.2.type) = types) :
    dependencies.parameters types = .ok (dependencies.values.map fun pair => pair.2.value) := by
  -- The cursor stands behind the values that were read already.
  have onward (before rest : List (Key × Instance)) (split : dependencies.values = before ++ rest) :
      firstFailure (dependencies.readEach before.length
          (rest.map fun pair => Reading.next pair.2.type)) =
        .ok (rest.map fun pair => pair.2.value) := by
    induction rest generalizing before with
    | nil => rfl
    | cons pair rest ih =>
      have here : dependencies.values[before.length]? = some pair := by
        rw [split, List.getElem?_append_right (Nat.le_refl _)]
        simp
      have further := ih (before ++ [pair]) (by rw [split, List.append_assoc]; rfl)
      rw [List.length_append, List.length_singleton] at further
      simp only [List.map_cons, readEach, read, get_eq_ok here, Except.map, firstFailure, further]
      rfl
  have whole := onward [] dependencies.values rfl
  rw [← typed, parameters, readAll, List.map_map]
  exact whole

end Dependencies

/-- The values are handed over under the keys, each of the type that its key names. -/
def Handover (keys : List Key) (handed : List (Key × Instance)) : Prop :=
  List.Forall₂ (fun key pair => pair.1 = key ∧ pair.2.type = key.type) keys handed

/-- The parameters of a typed closure are fetched without a failure from the values of its
dependencies. -/
theorem Handover.parameters_eq_ok {signature : Signature} {handed : List (Key × Instance)}
    (handover : Handover signature.dependencies handed) (owner : Key) :
    (⟨owner, handed⟩ : Dependencies).parameters signature.parameters =
      .ok (handed.map fun pair => pair.2.value) := by
  apply Dependencies.parameters_eq_ok
  have types := map_eq_map_of_forall₂ handover fun _ _ fits => fits.2
  rw [types, Signature.dependencies, List.map_map]
  exact List.map_id _

namespace Host

variable {host : Host} {assembly : Assembly}

/-- The factories of an assembly that is not built yet were never called, and nothing that is built
already was made by one of them. -/
theorem Sound.covered_keyed (sound : host.Sound) (current : host.assembly = some assembly)
    (keys : Nat → List Key) :
    host.Covered (.keyed assembly.number keys) (Accessor.Keyed assembly.number keys) 0 := by
  refine ⟨fun accessor gathers producer makes same => ?_, fun entry handed called => ?_,
    Nat.zero_le _⟩
  · exact absurd same (sound.assembly_ne current (gathers.resolve_right nofun) makes)
  · exact absurd rfl ((sound.arena.handed _ handed called).1.2 assembly current)

/-- In every run after a build, the factories of the assembly were handed values under the keys
that they declare. -/
theorem Sound.keys_of_called (sound : host.Sound) (current : host.assembly = some assembly)
    {later : Host} (leads : host.build.2.Leads later) {index : Nat} {entry : Entry}
    {handed : List (Key × Instance)} (declared : assembly.entries[index]? = some entry)
    (called : .called ⟨assembly.number, index⟩ handed ∈ later.memory.history) :
    handed.map Prod.fst = entry.dependencies := by
  have wellFormed := sound.wellFormed assembly current
  generalize names : (fun index : Nat =>
    ((assembly.blueprint assembly.survey).entries[index]?.map Entry.dependencies).getD []) = keys
  have ward := Discipline.keyed_ward assembly.number keys
  have built := (sound.covered_keyed current keys).build ward sound ?_
  · have kept := built.2.leads ward (fun _ _ apart same => absurd same apart) sound.build
      (sound.spent_build current) leads
    rw [kept.2.holds index handed called, ← names]
    simp [sound.found current declared]
  · intro other same accepted mode compiled id entry factory dependencies prepares _
    obtain rfl := Option.some.inj (current.symm.trans same)
    have keys := map_eq_map_of_forall₂ prepares.covers fun _ _ fits => fits.1
    rw [keys, (Assembly.blueprint_sound wellFormed accepted).keys prepares.found
      prepares.origin, ← names]
    simp [Blueprint.producerOf, prepares.found]

/-- A factory is handed a value of the type of each declared dependency, in order. -/
theorem Sound.handed_of_called (sound : host.Sound) (current : host.assembly = some assembly)
    {later : Host} (leads : host.build.2.Leads later) {index : Nat} {entry : Entry}
    {handed : List (Key × Instance)} (declared : assembly.entries[index]? = some entry)
    (called : .called ⟨assembly.number, index⟩ handed ∈ later.memory.history) :
    Handover entry.dependencies handed := by
  have typed := ((sound.build.leads leads).arena.handed _ handed called).2
  rw [Handover, ← sound.keys_of_called current leads declared called, List.forall₂_map_left_iff,
    List.forall₂_same]
  exact fun pair member => ⟨rfl, typed pair member⟩

/-- In every reachable state, and whatever its lazy values have come to: a pool gives only values
of the type that the key names, whatever its factories make; to ask for that type is never
refused; every factory is handed the values of its declared dependencies, each of its type; and the
parameters of a typed closure can always be fetched. -/
theorem Reachable.type_safe (reachable : host.Reachable) :
    host.Recalls host.memory ∧
    (∀ memory, host.Recalls memory → ∀ pool, host.Offers pool → ∀ key,
      (∀ handle after,
        pool.getInstance host.applications key memory = (.value (.ok handle), after) →
        handle.type = key.type) ∧
      (∀ entry, pool.find? key = some entry →
        entry.get host.applications key.type memory =
          entry.getInstance host.applications memory)) ∧
    (∀ assembly, host.assembly = some assembly → ∀ later, host.build.2.Leads later →
      ∀ index entry handed, assembly.entries[index]? = some entry →
        .called ⟨assembly.number, index⟩ handed ∈ later.memory.history →
        Handover entry.dependencies handed ∧
        ∀ signature : Signature, entry.dependencies = signature.dependencies →
          (⟨entry.key, handed⟩ : Dependencies).parameters signature.parameters =
            .ok (handed.map fun pair => pair.2.value)) := by
  have sound := reachable.sound
  refine ⟨sound.arena.ready, fun memory recalls pool offers key => ?_, ?_⟩
  · exact ⟨fun handle after gives => sound.type_of_getInstance recalls offers gives,
      fun entry found => sound.get_eq_getInstance recalls offers found⟩
  · intro assembly current later leads index entry handed declared called
    have fits := sound.handed_of_called current leads declared called
    refine ⟨fits, fun signature closure => ?_⟩
    rw [closure] at fits
    exact fits.parameters_eq_ok entry.key

theorem type_safe_sample :
    ∃ handed, .called ⟨Assembly.sample.number, 1⟩ handed ∈ sample.build.2.memory.history ∧
      (⟨Key.of .u16, handed⟩ : Dependencies).parameters [.u8] =
        .ok (handed.map fun pair => pair.2.value) := by
  obtain ⟨handed, called⟩ := sample.build.2.memory.exists_called ⟨Assembly.sample.number, 1⟩
    (by decide +kernel)
  obtain ⟨entry, declared, keys⟩ : ∃ entry, Assembly.sample.entries[1]? = some entry ∧
      (entry.key, entry.dependencies) = (Key.of .u16, [Key.of .u8]) :=
    Option.map_eq_some_iff.mp (by decide +kernel)
  obtain ⟨key, dependencies⟩ := Prod.mk.inj keys
  have fetched := (reachable_sample.type_safe.2.2 _ assembly_sample _ .refl 1 entry handed declared
    called).2 ⟨.u16, [.u8]⟩ dependencies
  rw [key] at fetched
  exact ⟨handed, called, fetched⟩

end Host

end Wiring
