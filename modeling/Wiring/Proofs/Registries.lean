import Mathlib.Data.List.Induction
import Mathlib.Data.List.Nodup
import Wiring.Compilation
import Wiring.Proofs.Attempts
import Wiring.Stock

/-!
The laws of registries. Whatever calls a registry receives, the first call that names a key decides
what is registered under it and where the key stands. A lookup along the chain of parents takes the
first registry that holds the key, and a registry is compiled into a pool with the same keys in the
same order, unless one of its registrations cannot be compiled.
-/

namespace Wiring

theorem eraseDups_append_singleton {α : Type} [BEq α] [LawfulBEq α] (items : List α) (item : α) :
    (items ++ [item]).eraseDups =
      if item ∈ items then items.eraseDups else items.eraseDups ++ [item] := by
  rw [List.eraseDups_append]
  by_cases known : item ∈ items <;> simp [List.removeAll, known, List.eraseDups_cons]

namespace Registry

/-- A call that offers an entry for a key. -/
inductive Call where
  /-- The registry reports when the key is taken. -/
  | put (key : Key) (entry : EntryId)
  /-- The registry tells whether the key was free. -/
  | putIfAbsent (key : Key) (entry : EntryId)

namespace Call

/-- The key that the call names. -/
def key : Call → Key
  | .put key _ => key
  | .putIfAbsent key _ => key

/-- The entry that the call offers. -/
def entry : Call → EntryId
  | .put _ entry => entry
  | .putIfAbsent _ entry => entry

/-- The registry after the call. -/
def perform (registry : Registry) : Call → Registry
  | .put key entry => (registry.put key entry).2
  | .putIfAbsent key entry => (registry.putIfAbsent key entry).2

end Call

/-- A registry after calls, one after the other. -/
def afterCalls (registry : Registry) (calls : List Call) : Registry :=
  calls.foldl Call.perform registry

/-- The entry that was offered first for a key. -/
def firstOffer? (calls : List Call) (key : Key) : Option EntryId :=
  (calls.find? fun call => call.key == key).map Call.entry

/-- The registry holds what the calls offered first for each key, and later calls change nothing. -/
structure Reflects (calls : List Call) (registry : Registry) : Prop where
  found : ∀ key, registry.get? key = firstOffer? calls key
  /-- The keys stand in the order in which they were named first, each once. -/
  order : registry.keys = (calls.map Call.key).eraseDups
  distinct : registry.keys.Nodup
  paired : ∀ pair ∈ registry.registrations, firstOffer? calls pair.1 = some pair.2
  /-- An entry for a key that was named before is refused. -/
  taken : ∀ key existing, firstOffer? calls key = some existing → ∀ rejected,
    registry.put key rejected = (.error ⟨key, existing, rejected⟩, registry) ∧
      registry.putIfAbsent key rejected = (false, registry)
  /-- An entry for a new key is registered. -/
  free : ∀ key, firstOffer? calls key = none → ∀ entry,
    registry.put key entry = (.ok (), registry.append key entry) ∧
      registry.putIfAbsent key entry = (true, registry.append key entry)

section Calls

variable {calls : List Call} {registry : Registry} {key : Key} {existing : EntryId}

theorem put_of_get? (held : registry.get? key = some existing) (rejected : EntryId) :
    registry.put key rejected = (.error ⟨key, existing, rejected⟩, registry) := by
  simp [put, held]

theorem putIfAbsent_of_get? (held : registry.get? key = some existing) (rejected : EntryId) :
    registry.putIfAbsent key rejected = (false, registry) := by
  simp [putIfAbsent, contains, held]

theorem put_of_get?_eq_none (free : registry.get? key = none) (entry : EntryId) :
    registry.put key entry = (.ok (), registry.append key entry) := by
  simp [put, free]

theorem putIfAbsent_of_get?_eq_none (free : registry.get? key = none) (entry : EntryId) :
    registry.putIfAbsent key entry = (true, registry.append key entry) := by
  simp [putIfAbsent, contains, free]

theorem perform_of_get? {call : Call} (held : registry.get? call.key = some existing) :
    call.perform registry = registry := by
  cases call with
  | put key entry => exact congrArg Prod.snd (put_of_get? held entry)
  | putIfAbsent key entry => exact congrArg Prod.snd (putIfAbsent_of_get? held entry)

theorem perform_of_get?_eq_none {call : Call} (free : registry.get? call.key = none) :
    call.perform registry = registry.append call.key call.entry := by
  cases call with
  | put key entry => exact congrArg Prod.snd (put_of_get?_eq_none free entry)
  | putIfAbsent key entry => exact congrArg Prod.snd (putIfAbsent_of_get?_eq_none free entry)

theorem firstOffer?_append (calls : List Call) (call : Call) (key : Key) :
    firstOffer? (calls ++ [call]) key =
      (firstOffer? calls key).or (if call.key = key then some call.entry else none) := by
  unfold firstOffer?
  rw [List.find?_append]
  cases calls.find? fun call => call.key == key with
  | some first => simp
  | none => by_cases same : call.key = key <;> simp [same]

/-- A registry that holds what was offered first answers calls as it should. -/
theorem reflects_of_found (found : ∀ key, registry.get? key = firstOffer? calls key)
    (order : registry.keys = (calls.map Call.key).eraseDups) (distinct : registry.keys.Nodup)
    (paired : ∀ pair ∈ registry.registrations, firstOffer? calls pair.1 = some pair.2) :
    registry.Reflects calls where
  found := found
  order := order
  distinct := distinct
  paired := paired
  taken key _ held rejected :=
    have here := (found key).trans held
    ⟨put_of_get? here rejected, putIfAbsent_of_get? here rejected⟩
  free key absent entry :=
    have here := (found key).trans absent
    ⟨put_of_get?_eq_none here entry, putIfAbsent_of_get?_eq_none here entry⟩

/-- One more call: its key was named before and nothing changes, or it is registered at the end. -/
theorem Reflects.perform (reflects : registry.Reflects calls) (call : Call) :
    (call.perform registry).Reflects (calls ++ [call]) := by
  have order : ((calls ++ [call]).map Call.key).eraseDups =
      if call.key ∈ registry.keys then registry.keys else registry.keys ++ [call.key] := by
    rw [List.map_append, List.map_singleton, eraseDups_append_singleton, reflects.order]
    simp only [List.mem_eraseDups]
  have known : call.key ∈ registry.keys ↔ (registry.get? call.key).isSome = true :=
    contains_iff_mem_keys.symm
  cases held : registry.get? call.key with
  | some existing =>
    have first (key : Key) : firstOffer? (calls ++ [call]) key = firstOffer? calls key := by
      rw [firstOffer?_append]
      by_cases same : call.key = key
      · rw [← same, ← reflects.found, held, Option.some_or]
      · rw [if_neg same, Option.or_none]
    rw [perform_of_get? held]
    refine reflects_of_found (fun key => ?_) ?_ reflects.distinct fun pair member => ?_
    · rw [first, reflects.found]
    · rw [order, if_pos (known.mpr (by rw [held]; rfl))]
    · rw [first, reflects.paired pair member]
  | none =>
    have new : call.key ∉ registry.keys := by simp [known, held]
    rw [perform_of_get?_eq_none held]
    refine reflects_of_found (fun key => ?_) ?_ ?_ fun pair member => ?_
    · rw [get?_append, firstOffer?_append, reflects.found]
    · rw [order, if_neg new, keys_append]
    · rw [keys_append, List.nodup_append_comm, List.singleton_append]
      exact List.nodup_cons.mpr ⟨new, reflects.distinct⟩
    · rw [firstOffer?_append]
      rcases List.mem_append.mp member with old | last
      · rw [reflects.paired pair old, Option.some_or]
      · rw [List.mem_singleton.mp last, ← reflects.found, held, if_pos rfl, Option.none_or]

/-- A registry reflects the calls that it received. -/
theorem reflects_afterCalls (scope : ScopeId) (parent : Option ScopeId) (calls : List Call) :
    ((empty scope parent).afterCalls calls).Reflects calls := by
  induction calls using List.reverseRecOn with
  | nil => exact reflects_of_found (fun _ => rfl) rfl List.nodup_nil nofun
  | append_singleton calls call ih =>
    rw [afterCalls, List.foldl_append]
    exact ih.perform call

end Calls

section Chains

/-- Every parent that is there stands before its child. -/
def Descending (registries : List Registry) : Prop :=
  ∀ (index : Nat) (registry : Registry) (parent : ScopeId), registries[index]? = some registry →
    registry.parent = some parent → parent.index < index ∨ registries.length ≤ parent.index

/-- The chain from a registry to one that has no parent, or whose parent is not there. -/
inductive Chain (registries : List Registry) : Registry → List Registry → Prop
  | top {registry : Registry}
      (alone : (registry.parent.bind fun parent => registries[parent.index]?) = none) :
      Chain registries registry [registry]
  | up {registry parent : Registry} {chain : List Registry}
      (above : (registry.parent.bind fun parent => registries[parent.index]?) = some parent)
      (further : Chain registries parent chain) : Chain registries registry (registry :: chain)

variable {registries : List Registry} {registry : Registry}

/-- A lineage that is as long as the position of the parent comes to the end of the chain. -/
theorem Descending.chain_lineage (descending : Descending registries) {length : Nat}
    (enough : ∀ parent, registry.parent = some parent →
      parent.index < length ∨ registries.length ≤ parent.index) :
    Chain registries registry (lineage registries length registry) := by
  have missing {parent : ScopeId} (beyond : registries.length ≤ parent.index) :
      registries[parent.index]? = none := List.getElem?_eq_none beyond
  induction length generalizing registry with
  | zero =>
    refine .top ?_
    cases named : registry.parent with
    | none => rfl
    | some parent =>
      rcases enough parent named with less | beyond
      · exact absurd less (Nat.not_lt_zero _)
      · exact missing beyond
  | succ length ih =>
    unfold lineage
    cases above : registry.parent.bind fun parent => registries[parent.index]? with
    | none => exact .top above
    | some parent =>
      refine .up above (ih fun next named => ?_)
      obtain ⟨position, here, found⟩ := Option.bind_eq_some_iff.mp above
      have inside := (List.getElem?_eq_some_iff.mp found).1
      have near := enough position here
      have descends := descending position.index parent next found named
      omega

/-- The ancestry of a registry is its whole chain. -/
theorem Descending.chain_ancestry (descending : Descending registries) (registry : Registry) :
    Chain registries registry (ancestry registries registry) :=
  descending.chain_lineage fun parent _ => Nat.lt_or_ge parent.index registries.length

/-- A lookup from the registry goes up the whole chain of its parents and takes the first registry
that holds the key. -/
structure Searches (registries : List Registry) (registry : Registry) : Prop where
  chain : Chain registries registry (ancestry registries registry)
  found : ∀ key entry, getNearest? registries registry key = some entry ↔
    ∃ nearer holder farther, ancestry registries registry = nearer ++ holder :: farther ∧
      holder.get? key = some entry ∧ ∀ other ∈ nearer, other.get? key = none
  missing : ∀ key, getNearest? registries registry key = none ↔
    ∀ other ∈ ancestry registries registry, other.get? key = none

/-- Where every parent stands before its child, lookups come to an end with the right answer. -/
theorem Descending.searches (descending : Descending registries) (registry : Registry) :
    Searches registries registry where
  chain := descending.chain_ancestry registry
  found key entry := by
    rw [getNearest?, List.findSome?_eq_some_iff]
  missing key := by
    rw [getNearest?, List.findSome?_eq_none_iff]

end Chains

section Pools

variable {σ ε α : Type}

/-- The registrations were compiled in turn, each from the state that the one before it left. -/
inductive Compiles (compile : Key → EntryId → Attempt σ ε α) :
    List (Key × EntryId) → σ → List (Key × α) → σ → Prop
  | nil (state : σ) : Compiles compile [] state [] state
  | cons {key : Key} {entry : EntryId} {rest : List (Key × EntryId)} {compiled : α}
      {results : List (Key × α)} {state middle last : σ}
      (first : compile key entry state = (.value compiled, middle))
      (others : Compiles compile rest middle results last) :
      Compiles compile ((key, entry) :: rest) state ((key, compiled) :: results) last

/-- The registrations were compiled in turn up to one that stopped without a value, and those
behind it were left. -/
def Stops (compile : Key → EntryId → Attempt σ ε α) (items : List (Key × EntryId)) (state : σ)
    (stop : Ending ε Empty) (last : σ) : Prop :=
  ∃ before key entry after results middle, items = before ++ (key, entry) :: after ∧
    Compiles compile before state results middle ∧
    compile key entry middle = (stop.withoutValue, last)

variable {compile : Key → EntryId → Attempt σ ε α} {items : List (Key × EntryId)}
  {results : List (Key × α)} {state last : σ} {stop : Ending ε Empty}

/-- What is compiled has the keys of the registrations, in the same order. -/
theorem Compiles.keys (compiles : Compiles compile items state results last) :
    results.map Prod.fst = items.map Prod.fst := by
  induction compiles with
  | nil => rfl
  | cons first others ih => rw [List.map_cons, List.map_cons, ih]

theorem compiles_cons_iff {key : Key} {entry : EntryId} {rest : List (Key × EntryId)} :
    Compiles compile ((key, entry) :: rest) state results last ↔
      ∃ compiled middle others, compile key entry state = (.value compiled, middle) ∧
        Compiles compile rest middle others last ∧ results = (key, compiled) :: others := by
  constructor
  · intro compiles
    cases compiles with
    | cons first others => exact ⟨_, _, _, first, others, rfl⟩
  · rintro ⟨compiled, middle, others, first, onward, rfl⟩
    exact .cons first onward

/-- The first registration stops, or it is compiled and one behind it stops. -/
theorem stops_cons_iff {key : Key} {entry : EntryId} {rest : List (Key × EntryId)} :
    Stops compile ((key, entry) :: rest) state stop last ↔
      compile key entry state = (stop.withoutValue, last) ∨
        ∃ compiled middle, compile key entry state = (.value compiled, middle) ∧
          Stops compile rest middle stop last := by
  constructor
  · rintro ⟨before, other, offered, after, results, middle, split, compiles, stops⟩
    rcases List.cons_eq_append_iff.mp split with ⟨rfl, same⟩ | ⟨tail, rfl, rfl⟩
    · cases same
      cases compiles
      exact .inl stops
    · obtain ⟨compiled, between, others, first, onward, -⟩ := compiles_cons_iff.mp compiles
      exact .inr ⟨compiled, between, first, tail, other, offered, after, others, middle, rfl,
        onward, stops⟩
  · rintro (stops | ⟨compiled, middle, first, before, other, offered, after, results, between,
      rfl, compiles, stops⟩)
    · exact ⟨[], key, entry, rest, [], state, rfl, .nil state, stops⟩
    · exact ⟨(key, entry) :: before, other, offered, after, (key, compiled) :: results, between,
        rfl, .cons first compiles, stops⟩

theorem compileEach_cons (scope : ScopeId) (parent : Option ScopeId) (key : Key) (entry : EntryId)
    (rest : List (Key × EntryId)) :
    (Registry.mk scope parent ((key, entry) :: rest)).compileEach compile =
      (compile key entry).andThen fun compiled =>
        ((Registry.mk scope parent rest).compileEach compile).andThen fun results =>
          Attempt.done ((key, compiled) :: results) := by
  funext state
  simp only [compileEach, Attempt.forEach, Attempt.andThen]
  rcases compile key entry state with ⟨ending, middle⟩
  cases ending <;> rfl

/-- A registry is compiled when all its registrations are, in turn. -/
theorem compileEach_eq_value_iff {registry : Registry} :
    registry.compileEach compile state = (.value results, last) ↔
      Compiles compile registry.registrations state results last := by
  obtain ⟨scope, parent, registrations⟩ := registry
  induction registrations generalizing state results last with
  | nil =>
    constructor
    · intro ends
      cases ends
      exact .nil _
    · intro compiles
      cases compiles
      rfl
  | cons pair rest ih =>
    obtain ⟨key, entry⟩ := pair
    simp only [compileEach_cons, Attempt.andThen_eq_value_iff, ih, compiles_cons_iff,
      Attempt.done_apply, Prod.mk.injEq, Ending.value.injEq]
    constructor
    · rintro ⟨compiled, middle, first, others, after, onward, rfl, rfl⟩
      exact ⟨compiled, middle, others, first, onward, rfl⟩
    · rintro ⟨compiled, middle, others, first, onward, rfl⟩
      exact ⟨compiled, middle, first, others, last, onward, rfl, rfl⟩

/-- The compilation of a registry stops at the first registration that gives no value. -/
theorem compileEach_eq_stop_iff {registry : Registry} :
    registry.compileEach compile state = (stop.withoutValue, last) ↔
      Stops compile registry.registrations state stop last := by
  obtain ⟨scope, parent, registrations⟩ := registry
  induction registrations generalizing state with
  | nil =>
    refine ⟨fun ends => absurd ends Attempt.done_ne_stop, ?_⟩
    rintro ⟨before, key, entry, after, results, middle, split, -⟩
    cases before <;> cases split
  | cons pair rest ih =>
    obtain ⟨key, entry⟩ := pair
    simp only [compileEach_cons, Attempt.andThen_eq_stop_iff, ih, stops_cons_iff,
      Attempt.done_ne_stop, and_false, exists_false, or_false]

/-- The pool of the compiled registrations, on top of the pool of the parent. -/
def toPool (registry : Registry) (name : String) (parent : Option Pool)
    (compile : Key → EntryId → Attempt σ ε RuntimeEntry) : Attempt σ ε Pool := do
  let entries ← registry.compileEach compile
  return ⟨⟨name, entries⟩, (parent.map Pool.layers).getD []⟩

/-- The registry becomes a pool when all its registrations are compiled in turn, and the pool has
its keys in the same order. It becomes none when one of them stops. -/
structure Becomes (registry : Registry) (name : String) (parent : Option Pool)
    (compile : Key → EntryId → Attempt σ ε RuntimeEntry) (state : σ) : Prop where
  given : ∀ pool last, registry.toPool name parent compile state = (.value pool, last) ↔
    Compiles compile registry.registrations state pool.layer.entries last ∧
      pool.layer.name = name ∧ pool.ancestors = (parent.map Pool.layers).getD []
  keys : ∀ pool last, registry.toPool name parent compile state = (.value pool, last) →
    pool.layer.entries.map Prod.fst = registry.keys
  stopped : ∀ stop last, registry.toPool name parent compile state = (stop.withoutValue, last) ↔
    Stops compile registry.registrations state stop last

theorem becomes (registry : Registry) (name : String) (parent : Option Pool)
    (compile : Key → EntryId → Attempt σ ε RuntimeEntry) (state : σ) :
    registry.Becomes name parent compile state := by
  have given (pool : Pool) (last : σ) :
      registry.toPool name parent compile state = (.value pool, last) ↔
        Compiles compile registry.registrations state pool.layer.entries last ∧
          pool.layer.name = name ∧ pool.ancestors = (parent.map Pool.layers).getD [] := by
    refine Attempt.andThen_eq_value_iff.trans ?_
    simp only [compileEach_eq_value_iff, Attempt.pure_apply, Prod.mk.injEq, Ending.value.injEq]
    constructor
    · rintro ⟨entries, middle, compiles, rfl, rfl⟩
      exact ⟨compiles, rfl, rfl⟩
    · rintro ⟨compiles, rfl, ancestors⟩
      exact ⟨pool.layer.entries, last, compiles, by rw [← ancestors], rfl⟩
  refine ⟨given, fun pool last ends => ((given pool last).mp ends).1.keys, fun stop last => ?_⟩
  refine Attempt.andThen_eq_stop_iff.trans ?_
  have never (entries : List (Key × RuntimeEntry)) (middle : σ) :
      (pure (⟨⟨name, entries⟩, (parent.map Pool.layers).getD []⟩ : Pool) : Attempt σ ε Pool)
        middle ≠ (stop.withoutValue, last) := Attempt.done_ne_stop
  simp only [compileEach_eq_stop_iff, never, and_false, exists_false, or_false]

end Pools

/-- The first call that names a key decides what is registered under it. Lookups take the nearest
registration on the chain of parents, and a registry is compiled in order into a pool with its
keys. -/
theorem first_call_decides (scope : ScopeId) (parent : Option ScopeId) (calls : List Call) :
    ((empty scope parent).afterCalls calls).Reflects calls ∧
      (∀ registries, Descending registries → ∀ registry, Searches registries registry) ∧
      (∀ (σ ε : Type) (compile : Key → EntryId → Attempt σ ε RuntimeEntry) (registry : Registry)
        (name : String) (below : Option Pool) (state : σ),
        registry.Becomes name below compile state) ∧
      ∀ (blueprint : Blueprint) (applications : List Application) (name : String)
        (below : Option Pool) (registry : Registry),
        blueprint.pool applications name below registry =
          registry.toPool name below (blueprint.runtimeEntry applications) := by
  refine ⟨reflects_afterCalls scope parent calls, ?_, ?_, ?_⟩
  · intro registries descending registry
    exact descending.searches registry
  · intro σ ε compile registry name below state
    exact registry.becomes name below compile state
  · intro blueprint applications name below registry
    rfl

/-- Four calls that name two keys. -/
def mixedCalls : List Call :=
  [.put (.of .u32) ⟨0⟩, .putIfAbsent (.of .u32) ⟨5⟩, .putIfAbsent (.of .string) ⟨1⟩,
    .put (.of .string) ⟨6⟩]

/-- Three registries, each of them above the next one. -/
def nested : List Registry :=
  [(empty .root none).afterCalls mixedCalls,
    (empty ⟨1⟩ (some .root)).afterCalls [.put (.of .string) ⟨2⟩], empty ⟨2⟩ (some ⟨1⟩)]

/-- A compilation that counts its calls and fails for texts. -/
def compileNumbers (key : Key) (entry : EntryId) : Attempt Nat String RuntimeEntry := fun count =>
  if key.type = .string then (.error key.shown, count + 1)
  else
    let handle := ⟨.made entry.index, .ofParts key.type 3 ""⟩
    (.value ⟨key, none, .constant ⟨count⟩ handle⟩, count + 1)

theorem descending_nested : Descending nested := by
  rintro (_ | _ | _ | index) registry parent here named
  · cases here
    cases named
  · cases here
    cases named
    exact .inl (by decide)
  · cases here
    cases named
    exact .inl (by decide)
  · cases here

/-- Both keys belong to their first entries, the last registry sees the nearest of them, and the
failure for the second key leaves no pool. -/
theorem first_call_decides_sample :
    ((empty .root none).afterCalls mixedCalls).keys = [.of .u32, .of .string] ∧
      (((empty .root none).afterCalls mixedCalls).put (.of .string) ⟨7⟩).1 =
        .error ⟨.of .string, ⟨1⟩, ⟨7⟩⟩ ∧
      Descending nested ∧
      getNearest? nested (empty ⟨2⟩ (some ⟨1⟩)) (.of .string) = some ⟨2⟩ ∧
      getNearest? nested (empty ⟨2⟩ (some ⟨1⟩)) (.of .u32) = some ⟨0⟩ ∧
      getNearest? nested (empty ⟨2⟩ (some ⟨1⟩)) (.of .bool) = none ∧
      ((empty .root none).afterCalls mixedCalls).toPool "root" none compileNumbers 0 =
        (.error "alloc::string::String", 2) := by
  obtain ⟨reflects, searches, becomes, -⟩ := first_call_decides .root none mixedCalls
  have search := searches nested descending_nested (empty ⟨2⟩ (some ⟨1⟩))
  have refused := reflects.taken (.of .string) ⟨1⟩ (by decide) ⟨7⟩
  refine ⟨reflects.order, congrArg Prod.fst refused.1, descending_nested, ?_, ?_, ?_, ?_⟩
  · exact (search.found _ _).mpr ⟨[_], _, [_], rfl, by decide, by decide⟩
  · exact (search.found _ _).mpr ⟨[_, _], _, [], rfl, by decide, by decide⟩
  · exact (search.missing _).mpr (by decide)
  · exact ((becomes Nat String compileNumbers _ "root" none 0).stopped
      (.error "alloc::string::String") 2).mpr
      ⟨[(.of .u32, ⟨0⟩)], .of .string, ⟨1⟩, [], _, 1, rfl, .cons rfl (.nil 1), rfl⟩

end Registry

end Wiring
