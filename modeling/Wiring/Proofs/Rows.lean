import Wiring.Proofs.Resolving

/-!
Rows: what the registries of a draft hold, with producers in place of entries. New entries do not
change a row, so a resolution can be followed from row to row: a row receives a pair unless it holds
the key already.
-/

namespace Wiring

namespace Delegate

/-- Two delegates lead to one producer: the same entry, or foreign entries that share an
accessor. -/
def Same : Delegate → Delegate → Prop
  | .entry left, .entry right => left = right
  | .foreign left, .foreign right => left.sharesAccessor right = true
  | .entry _, .foreign _ => False
  | .foreign _, .entry _ => False

@[simp] theorem same_entry {left right : EntryId} :
    (Delegate.entry left).Same (.entry right) ↔ left = right := Iff.rfl

@[simp] theorem same_foreign {left right : RuntimeEntry} :
    (Delegate.foreign left).Same (.foreign right) ↔ left.accessor.id = right.accessor.id := by
  simp [Same, RuntimeEntry.sharesAccessor, Accessor.same]

theorem Same.refl (delegate : Delegate) : delegate.Same delegate := by
  cases delegate with
  | entry target => exact rfl
  | foreign imported => exact same_foreign.mpr rfl

theorem Same.symm {left right : Delegate} (same : left.Same right) : right.Same left := by
  cases left with
  | entry target =>
    cases right with
    | entry other => exact Eq.symm same
    | foreign other => exact same.elim
  | foreign imported =>
    cases right with
    | entry other => exact same.elim
    | foreign other => exact same_foreign.mpr (same_foreign.mp same).symm

theorem Same.trans {first second third : Delegate} (same : first.Same second)
    (onward : second.Same third) : first.Same third := by
  cases first with
  | entry target =>
    cases second with
    | entry other =>
      obtain rfl : target = other := same
      exact onward
    | foreign other => exact same.elim
  | foreign imported =>
    cases second with
    | entry other => exact same.elim
    | foreign other =>
      cases third with
      | entry last => exact onward.elim
      | foreign last =>
        exact same_foreign.mpr ((same_foreign.mp same).trans (same_foreign.mp onward))

end Delegate

/-- Keys with their producers, in the order of registration. -/
abbrev Row : Type := List (Key × Delegate)

namespace Row

/-- The keys of a row. -/
def keys (row : Row) : List Key := row.map Prod.fst

/-- The producer under a key. -/
def get? (row : Row) (key : Key) : Option Delegate :=
  (row.find? fun pair => pair.1 == key).map Prod.snd

/-- A pair is received unless the row holds its key already. -/
def receive (row : Row) (pair : Key × Delegate) : Row :=
  if pair.1 ∈ row.keys then row else row ++ [pair]

/-- Pairs are received one after the other. -/
def receiveAll (row more : Row) : Row := more.foldl receive row

/-- Every pair has a key that the row does not hold when its turn comes. -/
def Fresh : Row → Row → Prop
  | _, [] => True
  | row, pair :: rest => pair.1 ∉ row.keys ∧ Fresh (row.receive pair) rest

/-- Every pair has the producer that the row holds under its key when its turn comes, if it holds
one. -/
def Agreeing : Row → Row → Prop
  | _, [] => True
  | row, pair :: rest =>
    (∀ held, row.get? pair.1 = some held → held.Same pair.2) ∧ Agreeing (row.receive pair) rest

variable {row more rest : Row} {pair : Key × Delegate} {key : Key} {delegate : Delegate}

theorem get?_eq_none : row.get? key = none ↔ key ∉ row.keys := by
  rw [get?, Option.map_eq_none_iff, List.find?_eq_none, keys, List.mem_map]
  constructor
  · rintro absent ⟨pair, member, rfl⟩
    exact absent pair member (beq_self_eq_true _)
  · intro absent pair member same
    exact absent ⟨pair, member, beq_iff_eq.mp same⟩

theorem mem_of_get? (found : row.get? key = some delegate) : (key, delegate) ∈ row :=
  mem_of_find?_keyed found

theorem mem_keys_of_get? (found : row.get? key = some delegate) : key ∈ row.keys :=
  List.mem_map.mpr ⟨_, mem_of_get? found, rfl⟩

theorem exists_of_mem_keys (member : key ∈ row.keys) : ∃ delegate, row.get? key = some delegate :=
  Option.ne_none_iff_exists'.mp fun absent => get?_eq_none.mp absent member

/-- In a row without repeated keys each pair is the one that is found. -/
theorem get?_of_mem (distinct : row.keys.Nodup) (member : (key, delegate) ∈ row) :
    row.get? key = some delegate := by
  induction row with
  | nil => cases member
  | cons first others ih =>
    obtain ⟨absent, distinct⟩ := List.nodup_cons.mp distinct
    unfold get?
    rw [List.find?_cons]
    rcases List.mem_cons.mp member with rfl | later
    · simp
    · have different : (first.1 == key) = false := by
        rw [beq_eq_false_iff_ne]
        rintro rfl
        exact absent (List.mem_map.mpr ⟨_, later, rfl⟩)
      rw [different]
      exact ih distinct later

theorem get?_append (row more : Row) (key : Key) :
    get? (row ++ more) key = (row.get? key).or (more.get? key) := by
  unfold get?
  rw [List.find?_append]
  cases row.find? fun pair => pair.1 == key <;> rfl

theorem receive_of_mem (held : pair.1 ∈ row.keys) : row.receive pair = row := if_pos held

theorem receive_of_notMem (absent : pair.1 ∉ row.keys) : row.receive pair = row ++ [pair] :=
  if_neg absent

/-- A received pair does not take the place of another one. -/
theorem get?_receive (row : Row) (pair : Key × Delegate) (key : Key) :
    (row.receive pair).get? key = (row.get? key).or (get? [pair] key) := by
  by_cases held : pair.1 ∈ row.keys
  · rw [receive_of_mem held]
    cases found : row.get? key with
    | some delegate => rfl
    | none =>
      have different : pair.1 ≠ key := by
        rintro rfl
        exact get?_eq_none.mp found held
      simp [get?, different]
  · rw [receive_of_notMem held, get?_append]

@[simp] theorem receiveAll_nil (row : Row) : row.receiveAll [] = row := rfl

@[simp] theorem receiveAll_cons (row : Row) (pair : Key × Delegate) (rest : Row) :
    row.receiveAll (pair :: rest) = (row.receive pair).receiveAll rest := rfl

theorem receiveAll_append (row more rest : Row) :
    row.receiveAll (more ++ rest) = (row.receiveAll more).receiveAll rest := List.foldl_append

/-- What a row holds comes before what it receives. -/
theorem get?_receiveAll (row more : Row) (key : Key) :
    (row.receiveAll more).get? key = (row.get? key).or (more.get? key) := by
  induction more generalizing row with
  | nil => simp [get?]
  | cons pair rest ih =>
    rw [receiveAll_cons, ih, get?_receive, Option.or_assoc, ← get?_append]
    rfl

theorem mem_keys_receive : key ∈ (row.receive pair).keys ↔ key ∈ row.keys ∨ key = pair.1 := by
  by_cases held : pair.1 ∈ row.keys
  · rw [receive_of_mem held]
    constructor
    · exact .inl
    · rintro (member | rfl)
      · exact member
      · exact held
  · rw [receive_of_notMem held]
    simp [keys]

theorem mem_keys_receiveAll :
    key ∈ (row.receiveAll more).keys ↔ key ∈ row.keys ∨ key ∈ more.keys := by
  rw [← not_iff_not, not_or, ← get?_eq_none, ← get?_eq_none, ← get?_eq_none, get?_receiveAll,
    Option.or_eq_none_iff]

theorem nodup_receive (distinct : row.keys.Nodup) : (row.receive pair).keys.Nodup := by
  by_cases held : pair.1 ∈ row.keys
  · rwa [receive_of_mem held]
  · rw [receive_of_notMem held]
    unfold keys at *
    rw [List.map_append, List.map_singleton, List.nodup_append]
    refine ⟨distinct, List.nodup_singleton _, ?_⟩
    rintro key member other single rfl
    exact held (List.mem_singleton.mp single ▸ member)

/-- Receiving repeats no key. -/
theorem nodup_receiveAll (distinct : row.keys.Nodup) : (row.receiveAll more).keys.Nodup := by
  induction more generalizing row with
  | nil => exact distinct
  | cons pair rest ih => exact ih (nodup_receive distinct)

theorem fresh_append :
    row.Fresh (more ++ rest) ↔ row.Fresh more ∧ (row.receiveAll more).Fresh rest := by
  induction more generalizing row with
  | nil => simp [Fresh]
  | cons pair others ih => simp only [List.cons_append, Fresh, ih, receiveAll_cons, and_assoc]

/-- Pairs are fresh when none of their keys is repeated or held already. -/
theorem fresh_iff : row.Fresh more ↔ more.keys.Nodup ∧ ∀ key ∈ more.keys, key ∉ row.keys := by
  induction more generalizing row with
  | nil => simp [Fresh, keys]
  | cons pair rest ih =>
    have cons : keys (pair :: rest) = pair.1 :: keys rest := rfl
    rw [Fresh, ih, cons, List.nodup_cons]
    simp only [mem_keys_receive, List.mem_cons, not_or]
    constructor
    · rintro ⟨absent, distinct, apart⟩
      refine ⟨⟨fun repeated => (apart pair.1 repeated).2 rfl, distinct⟩, ?_⟩
      rintro key (rfl | later)
      · exact absent
      · exact (apart key later).1
    · rintro ⟨⟨single, distinct⟩, apart⟩
      refine ⟨apart pair.1 (.inl rfl), distinct, fun key later => ⟨apart key (.inr later), ?_⟩⟩
      rintro rfl
      exact single later

theorem fresh_nil : Fresh [] more ↔ more.keys.Nodup := by
  rw [fresh_iff]
  simp [keys]

/-- Fresh pairs are all received. -/
theorem Fresh.receiveAll_eq (fresh : row.Fresh more) : row.receiveAll more = row ++ more := by
  induction more generalizing row with
  | nil => simp
  | cons pair rest ih =>
    rw [receiveAll_cons, ih fresh.2, receive_of_notMem fresh.1, List.append_assoc]
    rfl

theorem agreeing_append :
    row.Agreeing (more ++ rest) ↔ row.Agreeing more ∧ (row.receiveAll more).Agreeing rest := by
  induction more generalizing row with
  | nil => simp [Agreeing]
  | cons pair others ih => simp only [List.cons_append, Agreeing, ih, receiveAll_cons, and_assoc]

/-- Pairs agree with a row when in the end it holds the producer of each of them. -/
theorem agreeing_iff : row.Agreeing more ↔
    ∀ pair ∈ more, ∀ held, (row.receiveAll more).get? pair.1 = some held → held.Same pair.2 := by
  induction more generalizing row with
  | nil => simp [Agreeing]
  | cons pair rest ih =>
    have first (held : Delegate) :
        ((row.receive pair).receiveAll rest).get? pair.1 = some held ↔
          row.get? pair.1 = some held ∨ row.get? pair.1 = none ∧ held = pair.2 := by
      rw [get?_receiveAll, get?_receive]
      cases row.get? pair.1 <;> simp [get?, eq_comm]
    simp only [Agreeing, ih, receiveAll_cons, List.mem_cons, forall_eq_or_imp, first]
    refine and_congr_left fun _ => ⟨fun agrees held found => ?_, fun agrees held found => ?_⟩
    · rcases found with before | ⟨-, rfl⟩
      · exact agrees held before
      · exact .refl _
    · exact agrees held (.inl found)

end Row

/-- The row of a registry. -/
def Registry.row (entries : List Entry) (registry : Registry) : Row :=
  registry.registrations.map fun pair => (pair.1, delegateTo entries pair.2)

namespace Registry

variable {entries entries' : List Entry} {registry : Registry} {key : Key}

@[simp] theorem keys_row (entries : List Entry) (registry : Registry) :
    (registry.row entries).keys = registry.keys := by
  simp [row, Row.keys, keys]

theorem get?_row (entries : List Entry) (registry : Registry) (key : Key) :
    (registry.row entries).get? key = (registry.get? key).map (delegateTo entries) := by
  unfold row Row.get? get?
  rw [List.find?_map, Option.map_map, Option.map_map]
  rfl

/-- What an entry leads to does not depend on later entries. -/
theorem delegateTo_of_grown {id : EntryId} {entry : Entry} (grows : entries <+: entries')
    (found : entries[id.index]? = some entry) : delegateTo entries' id = delegateTo entries id := by
  unfold delegateTo
  rw [getElem?_of_grown grows found, found]

/-- Later entries do not change a row. -/
theorem row_of_grown (holds : registry.Holds entries) (grows : entries <+: entries') :
    registry.row entries' = registry.row entries := by
  refine List.map_congr_left fun pair member => ?_
  obtain ⟨entry, found, -⟩ := holds pair member
  rw [delegateTo_of_grown grows found]

end Registry

namespace Draft

/-- The row of a scope. -/
def row (draft : Draft) (scope : ScopeId) : Row := (draft.registry scope).row draft.entries

/-- The row of what is exported to the public. -/
def publicRow (draft : Draft) : Row := draft.exports.row draft.entries

variable {offered : Pool → Prop} {assembly : Assembly} {draft : Draft}

/-- An entry leads to a provider that delegates no further, or to a foreign entry. -/
theorem Sound.delegateTo_cases (sound : draft.Sound assembly)
    (wellFormed : assembly.WellFormed offered) {id : EntryId} {entry : Entry}
    (found : draft.entries[id.index]? = some entry) :
    (∃ target, delegateTo draft.entries id = .entry target ∧ producer draft.entries id = target ∧
      foreignEntry? draft.entries target = none ∧
      ∃ provider, assembly.entries[target.index]? = some provider) ∨
    ∃ imported, delegateTo draft.entries id = .foreign imported ∧
      producer draft.entries id = id ∧ foreignEntry? draft.entries id = some imported := by
  have direct {target : EntryId} {provider : Entry}
      (declared : assembly.entries[target.index]? = some provider) :
      foreignEntry? draft.entries target = none := by
    have proper := wellFormed.entries target.index provider declared
    unfold foreignEntry? Entry.Proper at *
    rw [sound.declared declared]
    cases origin : provider.origin <;> simp_all
  rcases sound.entry_cases found with declared | ⟨-, -, target, origin, provides⟩
  · have proper := wellFormed.entries id.index entry declared
    refine .inl ⟨id, ?_, ?_, direct declared, entry, declared⟩
    · unfold delegateTo Entry.Proper at *
      rw [found]
      cases origin : entry.origin <;> simp_all
    · unfold producer Entry.Proper at *
      rw [found]
      cases origin : entry.origin <;> simp_all
  · cases target with
    | entry target =>
      obtain ⟨provider, declared, -⟩ := provides
      exact .inl ⟨target, by simp [delegateTo, found, origin], by simp [producer, found, origin],
        direct declared, provider, declared⟩
    | foreign imported =>
      exact .inr ⟨imported, by simp [delegateTo, found, origin], by simp [producer, found, origin],
        by simp [ foreignEntry?, found, origin]⟩

/-- Entries have one producer when they lead to the same. -/
theorem Sound.sameProducer_iff (sound : draft.Sound assembly)
    (wellFormed : assembly.WellFormed offered) {left right : EntryId} {first second : Entry}
    (found : draft.entries[left.index]? = some first)
    (other : draft.entries[right.index]? = some second) :
    sameProducer draft.entries left right = true ↔
      (delegateTo draft.entries left).Same (delegateTo draft.entries right) := by
  unfold sameProducer
  rcases sound.delegateTo_cases wellFormed found with
    ⟨target, leads, behind, direct, -⟩ | ⟨imported, leads, behind, foreign⟩
  · rcases sound.delegateTo_cases wellFormed other with
      ⟨target', leads', behind', direct', -⟩ | ⟨imported', leads', behind', foreign'⟩
    · rw [leads, leads', behind, behind', direct, Delegate.same_entry]
      by_cases same : target = target' <;> simp [same]
    · have different : target ≠ right := by
        rintro rfl
        rw [direct] at foreign'
        cases foreign'
      rw [leads, leads', behind, behind', direct, if_neg different]
      simp [Delegate.Same]
  · rcases sound.delegateTo_cases wellFormed other with
      ⟨target', leads', behind', direct', -⟩ | ⟨imported', leads', behind', foreign'⟩
    · have different : left ≠ target' := by
        rintro rfl
        rw [direct'] at foreign
        cases foreign
      rw [leads, leads', behind, behind', direct', foreign, if_neg different]
      simp [Delegate.Same]
    · rw [leads, leads', behind, behind', foreign, foreign']
      by_cases same : left = right
      · subst same
        rw [foreign] at foreign'
        obtain rfl := Option.some.inj foreign'
        simp
      · simp [same, Delegate.Same]

/-- Entries and registries that stay keep the rows. -/
theorem Agrees.row_eq {after : Draft} (agrees : draft.Agrees after) (scope : ScopeId) :
    after.row scope = draft.row scope := by
  unfold row registry
  rw [agrees.entries, agrees.registries]

theorem Agrees.publicRow_eq {after : Draft} (agrees : draft.Agrees after) :
    after.publicRow = draft.publicRow := by
  unfold publicRow
  rw [agrees.entries, agrees.exports]

/-- A scope that does not exist holds nothing. -/
theorem Sound.row_eq_nil (sound : draft.Sound assembly) {scope : ScopeId}
    (missing : assembly.scopes[scope.index]? = none) : draft.row scope = [] := by
  have places := sound.places scope.index
  rw [missing, Option.map_none, Option.map_eq_none_iff] at places
  unfold row registry
  rw [places]
  rfl

/-- A new entry changes no row. -/
theorem Sound.row_push (sound : draft.Sound assembly) (entry : Entry) (scope : ScopeId) :
    (draft.push entry).2.row scope = draft.row scope :=
  Registry.row_of_grown (sound.holds_registry scope) (List.prefix_append _ _)

theorem Sound.publicRow_push (sound : draft.Sound assembly) (entry : Entry) :
    (draft.push entry).2.publicRow = draft.publicRow :=
  Registry.row_of_grown sound.exported (List.prefix_append _ _)

/-- A new delegate leads where it says. -/
theorem delegateTo_push (draft : Draft) (key : Key) (target : Delegate) (scope : ScopeId)
    (source : String) :
    delegateTo (draft.push (.ofDelegate key target scope source)).2.entries
      (draft.push (.ofDelegate key target scope source)).1 = target := by
  simp [delegateTo, push, Entry.ofDelegate]

/-- From the first draft to the second one a scope was offered the pairs, in this order, and
nothing else happened to the rows. A pair whose key was held already is a problem. -/
structure Fills (before after : Draft) (scope : ScopeId) (more : Row) : Prop where
  row : after.row scope = (before.row scope).receiveAll more
  others : ∀ other, other ≠ scope → after.row other = before.row other
  publicRow : after.publicRow = before.publicRow
  claimed : after.claimed = before.claimed
  accepted : after.diagnostics.isEmpty = true ↔
    before.diagnostics.isEmpty = true ∧ (before.row scope).Fresh more

theorem Fills.refl (draft : Draft) (scope : ScopeId) : draft.Fills draft scope [] where
  row := rfl
  others _ _ := rfl
  publicRow := rfl
  claimed := rfl
  accepted := by simp [Row.Fresh]

theorem Fills.trans {first second third : Draft} {scope : ScopeId} {more rest : Row}
    (fills : first.Fills second scope more) (onward : second.Fills third scope rest) :
    first.Fills third scope (more ++ rest) where
  row := by rw [onward.row, fills.row, Row.receiveAll_append]
  others other different := (onward.others other different).trans (fills.others other different)
  publicRow := onward.publicRow.trans fills.publicRow
  claimed := onward.claimed.trans fills.claimed
  accepted := by rw [onward.accepted, fills.accepted, fills.row, Row.fresh_append, and_assoc]

/-- A step that leaves rows, claims and problems alone. -/
theorem fills_of_agrees {after : Draft} (agrees : draft.Agrees after)
    (claimed : after.claimed = draft.claimed) (same : after.diagnostics = draft.diagnostics)
    (scope : ScopeId) : draft.Fills after scope [] where
  row := agrees.row_eq scope
  others other _ := agrees.row_eq other
  publicRow := agrees.publicRow_eq
  claimed := claimed
  accepted := by simp [same, Row.Fresh]

theorem Fills.report {before after : Draft} {scope : ScopeId} {more : Row}
    (fills : before.Fills after scope more) (event : Event) :
    before.Fills (after.report event) scope more := by
  have agrees : after.Agrees (after.report event) := ⟨rfl, rfl, rfl⟩
  rw [← List.append_nil more]
  exact fills.trans (fills_of_agrees agrees rfl rfl scope)

theorem Sound.fills_push (sound : draft.Sound assembly) (entry : Entry) (scope : ScopeId) :
    draft.Fills (draft.push entry).2 scope [] where
  row := sound.row_push entry scope
  others other _ := sound.row_push entry other
  publicRow := sound.publicRow_push entry
  claimed := rfl
  accepted := by simp [push, Row.Fresh]

/-- An entry is offered to a scope. -/
theorem fills_register (draft : Draft) (scopes : List Scope) {scope : ScopeId} (key : Key)
    (id : EntryId) (inside : scope.index < draft.registries.length) :
    draft.Fills (draft.register scopes scope key id) scope
      [(key, delegateTo draft.entries id)] := by
  have held : key ∈ (draft.row scope).keys ↔ (draft.registry scope).get? key ≠ none := by
    rw [row, Registry.keys_row, ← Registry.contains_iff_mem_keys, Registry.contains,
      Option.isSome_iff_ne_none]
  unfold register Registry.put
  cases free : (draft.registry scope).get? key with
  | some existing =>
    have taken : key ∈ (draft.row scope).keys := held.mpr (by simp [free])
    have agrees : draft.Agrees (draft.recordDuplicate scopes ⟨key, existing, id⟩) :=
      ⟨rfl, rfl, rfl⟩
    refine ⟨?_, fun other _ => agrees.row_eq other, agrees.publicRow_eq, rfl, ?_⟩
    · rw [Row.receiveAll_cons, Row.receive_of_mem taken]
      exact agrees.row_eq scope
    · simp [recordDuplicate_isEmpty, Row.Fresh, taken]
  | none =>
    have absent : key ∉ (draft.row scope).keys := fun member => held.mp member free
    refine ⟨?_, fun other different => ?_, rfl, rfl, ?_⟩
    · rw [Row.receiveAll_cons, Row.receive_of_notMem absent]
      unfold row
      rw [registry_set, if_pos ⟨rfl, inside⟩]
      simp [Registry.row, Registry.append]
    · unfold row
      rw [registry_set, if_neg]
      rintro ⟨same, -⟩
      exact different (congrArg ScopeId.mk same.symm)
    · simp [Row.Fresh, absent]

/-- A new delegate is offered to a scope. -/
theorem Sound.fills_push_register (sound : draft.Sound assembly) (scopes : List Scope)
    {scope : ScopeId} (inside : scope.index < assembly.scopes.length) (key : Key)
    (target : Delegate) (home : ScopeId) (source : String) :
    draft.Fills
      ((draft.push (.ofDelegate key target home source)).2.register scopes scope key
        (draft.push (.ofDelegate key target home source)).1) scope [(key, target)] := by
  have held : scope.index <
      (draft.push (.ofDelegate key target home source)).2.registries.length := by
    rw [← sound.length_registries] at inside
    exact inside
  have registered := fills_register _ scopes key
    (draft.push (.ofDelegate key target home source)).1 held
  rw [delegateTo_push] at registered
  exact (sound.fills_push _ scope).trans registered

end Draft

end Wiring
