import Wiring.Proofs.PoolImports
import Wiring.Proofs.Stages
import Wiring.Stock

/-!
Delegation is flat. Whatever a resolution adds, a delegate to an entry leads straight to an earlier
provider of its type, so one step finds the producer behind any entry. To have one producer is an
equivalence, also between entries of built pools that share an accessor, and an entry that is made
as a delegate for another one joins its class.
-/

namespace Wiring

/-- The value comes from the entry itself: it was given as an instance, or a factory makes it. -/
def Entry.Produces (entry : Entry) : Prop :=
  (∃ handle, entry.origin = .given handle) ∨ ∃ factory, entry.origin = .made factory

/-- Every delegate to an entry leads to an earlier provider of its type. -/
def LeadsBack (entries : List Entry) : Prop :=
  ∀ (id target : EntryId) (entry : Entry), entries[id.index]? = some entry →
    entry.origin = .delegate (.entry target) →
    target.index < id.index ∧ ∃ provider, entries[target.index]? = some provider ∧
      provider.Produces ∧ entry.key.type = provider.key.type

/-- What tells a producer from others: the accessor of a foreign entry, and otherwise the entry. -/
def producerClass (entries : List Entry) (id : EntryId) : AccessorId ⊕ EntryId :=
  match foreignEntry? entries (producer entries id) with
  | some imported => .inl imported.accessor.id
  | none => .inr (producer entries id)

/-- Delegation among entries takes one step, and producers tell entries apart. -/
structure FlatDelegation (entries : List Entry) : Prop where
  targets : LeadsBack entries
  /-- The producer behind a producer is the producer. -/
  settled : ∀ id, producer entries (producer entries id) = producer entries id
  /-- A producer that delegates stands for an entry of a built pool. -/
  foreign : ∀ (id : EntryId) (entry : Entry),
    entries[(producer entries id).index]? = some entry → entry.isDelegate = true →
    ∃ imported, entry.origin = .delegate (.foreign imported)
  same : Equivalence fun left right => sameProducer entries left right = true
  /-- A delegate that is made for an entry, and added at any later time, has its producer. -/
  copies : ∀ (id other : EntryId), id.index < entries.length → other.index < entries.length →
    ∀ grown, entries <+: grown → ∀ (copy : EntryId) (made : Entry),
      grown[copy.index]? = some made → made.origin = .delegate (delegateTo entries id) →
      sameProducer grown copy other = sameProducer entries id other

variable {entries grown : List Entry} {id copy target : EntryId} {entry provider made : Entry}

theorem Entry.Produces.ne_delegate (produces : entry.Produces) (target : Delegate) :
    entry.origin ≠ .delegate target := by
  rcases produces with ⟨handle, origin⟩ | ⟨factory, origin⟩ <;> simp [origin]

theorem Entry.Proper.produces (proper : entry.Proper) : entry.Produces := by
  cases origin : entry.origin with
  | given handle => exact .inl ⟨handle, origin⟩
  | made factory => exact .inr ⟨factory, origin⟩
  | delegate target => exact absurd origin (proper.ne_delegate target)

theorem producer_of_target (found : entries[id.index]? = some entry)
    (origin : entry.origin = .delegate (.entry target)) : producer entries id = target := by
  simp [producer, found, origin]

/-- An entry delegates to another one, which is its producer, or it is its own producer. -/
theorem producer_cases (entries : List Entry) (id : EntryId) :
    (∃ entry target, entries[id.index]? = some entry ∧
      entry.origin = .delegate (.entry target) ∧ producer entries id = target) ∨
    producer entries id = id := by
  unfold producer
  split
  · rename_i target leads
    obtain ⟨entry, found, origin⟩ := Option.map_eq_some_iff.mp leads
    exact .inl ⟨entry, target, found, origin, rfl⟩
  · exact .inr rfl

/-- Entries have one producer when what tells their producers apart is the same. -/
theorem sameProducer_iff_producerClass {left right : EntryId} :
    sameProducer entries left right = true ↔
      producerClass entries left = producerClass entries right := by
  unfold sameProducer producerClass
  by_cases same : producer entries left = producer entries right
  · simp [same]
  · cases foreignEntry? entries (producer entries left) <;>
      cases foreignEntry? entries (producer entries right) <;>
      simp [same, RuntimeEntry.sharesAccessor_iff]

theorem equivalence_sameProducer (entries : List Entry) :
    Equivalence fun left right => sameProducer entries left right = true where
  refl _ := sameProducer_iff_producerClass.mpr rfl
  symm same :=
    sameProducer_iff_producerClass.mpr (sameProducer_iff_producerClass.mp same).symm
  trans same onward :=
    sameProducer_iff_producerClass.mpr
      ((sameProducer_iff_producerClass.mp same).trans (sameProducer_iff_producerClass.mp onward))

theorem producerClass_of_produces (found : entries[id.index]? = some entry)
    (produces : entry.Produces) : producerClass entries id = .inr id := by
  rcases produces with ⟨handle, origin⟩ | ⟨factory, origin⟩ <;>
    simp [producerClass, producer, foreignEntry?, found, origin]

theorem producerClass_of_target (found : entries[id.index]? = some entry)
    (origin : entry.origin = .delegate (.entry target))
    (place : entries[target.index]? = some provider) (produces : provider.Produces) :
    producerClass entries id = .inr target := by
  rcases produces with ⟨handle, given⟩ | ⟨factory, given⟩ <;>
    simp [producerClass, producer, foreignEntry?, found, origin, place, given]

theorem producerClass_of_foreign {imported : RuntimeEntry}
    (found : entries[id.index]? = some entry)
    (origin : entry.origin = .delegate (.foreign imported)) :
    producerClass entries id = .inl imported.accessor.id := by
  simp [producerClass, producer, foreignEntry?, found, origin]

namespace LeadsBack

theorem producer_producer (targets : LeadsBack entries) (id : EntryId) :
    producer entries (producer entries id) = producer entries id := by
  rcases producer_cases entries id with ⟨entry, target, found, origin, behind⟩ | self
  · obtain ⟨-, provider, place, produces, -⟩ := targets id target entry found origin
    rw [behind]
    rcases producer_cases entries target with ⟨other, next, again, leads, -⟩ | self
    · obtain rfl := Option.some.inj (place.symm.trans again)
      exact absurd leads (produces.ne_delegate _)
    · exact self
  · rw [self, self]

theorem foreign_of_isDelegate (targets : LeadsBack entries)
    (found : entries[(producer entries id).index]? = some entry)
    (delegates : entry.isDelegate = true) :
    ∃ imported, entry.origin = .delegate (.foreign imported) := by
  obtain ⟨target, origin⟩ := entry.isDelegate_iff.mp delegates
  cases target with
  | foreign imported => exact ⟨imported, origin⟩
  | entry target =>
    -- The producer would have a producer before it, and so would not be settled.
    obtain ⟨earlier, -⟩ := targets _ target entry found origin
    rw [← producer_of_target found origin, targets.producer_producer] at earlier
    exact absurd earlier (Nat.lt_irrefl _)

/-- A delegate that is made for an entry and added later has its producer. -/
theorem producerClass_copy (targets : LeadsBack entries) (grows : entries <+: grown)
    (found : entries[id.index]? = some entry) (copied : grown[copy.index]? = some made)
    (origin : made.origin = .delegate (delegateTo entries id)) :
    producerClass grown copy = producerClass entries id := by
  have later {id : EntryId} {entry : Entry} (found : entries[id.index]? = some entry) :
      grown[id.index]? = some entry :=
    getElem?_of_grown grows found
  have provided (produces : entry.Produces) (self : delegateTo entries id = .entry id) :
      producerClass grown copy = producerClass entries id := by
    rw [producerClass_of_produces found produces]
    exact producerClass_of_target copied (self ▸ origin) (later found) produces
  cases leads : entry.origin with
  | given handle => exact provided (.inl ⟨handle, leads⟩) (by simp [delegateTo, found, leads])
  | made factory => exact provided (.inr ⟨factory, leads⟩) (by simp [delegateTo, found, leads])
  | delegate target =>
    have onward : delegateTo entries id = target := by simp [delegateTo, found, leads]
    rw [onward] at origin
    cases target with
    | foreign imported =>
      rw [producerClass_of_foreign found leads, producerClass_of_foreign copied origin]
    | entry target =>
      obtain ⟨-, provider, place, produces, -⟩ := targets id target entry found leads
      rw [producerClass_of_target found leads place produces]
      exact producerClass_of_target copied origin (later place) produces

/-- Entries that are added later leave the producer of an entry. -/
theorem producerClass_of_grown (targets : LeadsBack entries) (grows : entries <+: grown)
    (found : entries[id.index]? = some entry) :
    producerClass grown id = producerClass entries id := by
  have later := getElem?_of_grown grows found
  by_cases produces : entry.Produces
  · rw [producerClass_of_produces found produces, producerClass_of_produces later produces]
  · cases origin : entry.origin with
    | given handle => exact absurd (.inl ⟨handle, origin⟩) produces
    | made factory => exact absurd (.inr ⟨factory, origin⟩) produces
    | delegate target =>
      refine targets.producerClass_copy grows found later ?_
      simp [delegateTo, found, origin]

/-- Where delegates lead back to providers, delegation is flat. -/
theorem flatDelegation (targets : LeadsBack entries) : FlatDelegation entries where
  targets := targets
  settled := targets.producer_producer
  foreign _ _ := targets.foreign_of_isDelegate
  same := equivalence_sameProducer entries
  copies id other here there grown grows copy made copied origin := by
    have first := targets.producerClass_copy grows (List.getElem?_eq_getElem here) copied origin
    have second := targets.producerClass_of_grown grows (List.getElem?_eq_getElem there)
    rw [Bool.eq_iff_iff, sameProducer_iff_producerClass, sameProducer_iff_producerClass, first,
      second]

end LeadsBack

namespace Assembly

variable {offered : Pool → Prop} {assembly : Assembly} {draft last : Draft}

/-- Entries between those that are declared and those of a later draft lead back to providers. -/
theorem leadsBack_of_between (wellFormed : assembly.WellFormed offered)
    (sound : last.Sound assembly) (longer : assembly.entries <+: draft.entries)
    (grows : draft.entries <+: last.entries) : LeadsBack draft.entries := by
  intro id target entry found origin
  have undeclared : assembly.entries.length ≤ id.index := by
    refine Nat.le_of_not_lt fun inside => ?_
    have declared := List.getElem?_eq_getElem inside
    have same := Option.some.inj (found.symm.trans (getElem?_of_grown longer declared))
    exact (wellFormed.entries id.index _ declared).ne_delegate _ (same ▸ origin)
  rcases sound.entry_cases (getElem?_of_grown grows found) with
    declared | ⟨-, -, other, leads, provides⟩
  · exact absurd origin ((wellFormed.entries id.index entry declared).ne_delegate _)
  · obtain rfl := Origin.delegate.inj (leads.symm.trans origin)
    obtain ⟨provider, declared, type⟩ := provides
    have inside := (List.getElem?_eq_some_iff.mp declared).1
    exact ⟨Nat.lt_of_lt_of_le inside undeclared, provider, getElem?_of_grown longer declared,
      (wellFormed.entries target.index provider declared).produces, type.symm⟩

end Assembly

namespace Host

variable {host : Host} {assembly : Assembly}

/-- Delegation is flat at every stage of the resolution of a reachable assembly. The stages lead
from the declared entries to the end of the resolution, and at each of them every delegate to an
entry leads to an earlier provider of its type, one step finds the producer behind an entry, to
have one producer is an equivalence, and a delegate that is made for an entry has its producer. -/
theorem Reachable.delegates_flat (reachable : host.Reachable)
    (current : host.assembly = some assembly) :
    (Draft.start assembly.scopes assembly.entries).Through assembly.stages assembly.finalDraft ∧
      ∀ draft ∈ Draft.start assembly.scopes assembly.entries :: assembly.stages,
        FlatDelegation draft.entries := by
  have wellFormed := reachable.sound.wellFormed assembly current
  have through := assembly.through_stages
  refine ⟨through, fun draft member => ?_⟩
  obtain ⟨longer, grows⟩ := through.between member
  rw [assembly.finalDraft_agrees.entries] at grows
  exact (Assembly.leadsBack_of_between wellFormed (Assembly.exportedDraft_sound wellFormed) longer
    grows).flatDelegation

/-- A host that has built two numbers, and is about to build a third one with two imports of the
first under different keys, and to export them all. -/
def mingled : Host :=
  match (⟨0, .scope 1, false⟩ : PoolPath).resolve? overlaid.build.2.applications with
  | none => overlaid
  | some pool =>
    ((overlaid.build.2.importing (.named "copy") pool [.retain [.of .u8]]).declare
      (declareIn .root (.importFrom (.pool pool)
        [.retain [.of .u8], .rebind (.of .u8) (.qualified .u8 "again")]))).2.declareEach
      [.provide (.given (.ofParts .u32 3 "") none) [], .exportAll]

theorem reachable_mingled : mingled.Reachable := by
  have built := reachable_overlaid.leads (.single (.build overlaid))
  unfold mingled
  split
  · exact reachable_overlaid
  · rename_i pool place
    have offers := offers_of_resolve? place
    have first := leads_importing offers (.named "copy") [.retain [.of .u8]]
    have second := first.tail (.declare _ .root
      (.importFrom (.pool pool) [.retain [.of .u8], .rebind (.of .u8) (.qualified .u8 "again")])
      (by
        rintro _ ⟨⟩
        exact offers.leads first))
    exact built.leads (second.trans (leads_declareEach _ _ fun _ => ⟨trivial, trivial, trivial⟩))

/-- In the end the two imports have one producer, and the third number is exported as a delegate
to its provider. -/
theorem delegates_flat_sample : ∃ assembly draft, mingled.assembly = some assembly ∧
    draft ∈ assembly.stages ∧ draft.entries.length = 6 ∧ FlatDelegation draft.entries ∧
      sameProducer draft.entries ⟨1⟩ ⟨2⟩ = true ∧ producer draft.entries ⟨1⟩ = ⟨1⟩ ∧
      producer draft.entries ⟨3⟩ = ⟨0⟩ ∧ sameProducer draft.entries ⟨0⟩ ⟨1⟩ = false := by
  obtain ⟨assembly, current, facts⟩ : ∃ assembly, mingled.assembly = some assembly ∧
      (assembly.stages.getLast?.map fun draft => (draft.entries.length,
        sameProducer draft.entries ⟨1⟩ ⟨2⟩, producer draft.entries ⟨1⟩,
        producer draft.entries ⟨3⟩, sameProducer draft.entries ⟨0⟩ ⟨1⟩)) =
        some (6, true, ⟨1⟩, ⟨0⟩, false) :=
    Option.map_eq_some_iff.mp (by decide +kernel)
  obtain ⟨draft, last, facts⟩ := Option.map_eq_some_iff.mp facts
  obtain ⟨length, joined, own, behind, apart⟩ := by simpa using facts
  have member := List.mem_of_getLast? last
  obtain ⟨-, flat⟩ := reachable_mingled.delegates_flat current
  exact ⟨assembly, draft, current, member, length, flat draft (List.mem_cons_of_mem _ member),
    joined, own, behind, apart⟩

end Host

end Wiring
