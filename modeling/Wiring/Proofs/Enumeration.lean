import Wiring.Proofs.Lookup
import Wiring.Proofs.PoolImports
import Wiring.Stock

/-!
Enumeration agrees with lookup. A listing walks through the layers of a pool and leaves out keys
that it has seen; a lookup asks one layer after the other. As every entry stands under its own key,
a listing shows under each key the entry that a lookup finds, in the order of the layers and, within
a layer, of the registrations.
-/

namespace Wiring

namespace Pool

variable {pool : Pool}

/-- What a listing of a pool shows, entry by entry: the entries that are found under their keys,
each with its own data and with the name of the nearest layer that has the key, in the order in
which they stand in the layers. -/
structure Enumerates (pool : Pool) : Prop where
  once : (pool.visibleEntries.map RuntimeEntry.key).Nodup
  listed : ∀ key, key ∈ pool.visibleEntries.map RuntimeEntry.key ↔ pool.contains key = true
  found : ∀ entry, entry ∈ pool.visibleEntries ↔ pool.find? entry.key = some entry
  described : List.Forall₂ (fun (entry : RuntimeEntry) (service : ServiceDescriptor) =>
    service.key = entry.key ∧ service.mode = entry.mode ∧
      service.description = entry.description ∧
      ∃ layer, pool.Nearest layer entry ∧ service.scope = layer.name)
    pool.visibleEntries pool.services
  ordered : pool.visibleEntries.Sublist (pool.layers.flatMap Layer.listed)

theorem nearest_sublist (pairs : List (Layer × RuntimeEntry)) (seen : List Key) :
    (nearest pairs seen).Sublist pairs := by
  induction pairs generalizing seen with
  | nil => exact .slnil
  | cons pair rest ih =>
    unfold nearest
    split
    · exact (ih seen).cons pair
    · exact (ih _).cons_cons pair

theorem visibleEntries_sublist (pool : Pool) :
    pool.visibleEntries.Sublist (pool.layers.flatMap Layer.listed) := by
  have walked := (nearest_sublist (pool.layers.flatMap fun layer =>
    layer.listed.map fun entry => (layer, entry)) []).map Prod.snd
  rw [List.map_flatMap] at walked
  simpa [visibleEntries, walk] using walked

theorem Typed.enumerates (typed : pool.Typed) : pool.Enumerates where
  once := pool.nodup_visibleEntries
  listed _ := typed.mem_keys
  found _ := typed.mem_visibleEntries
  described := by
    refine List.forall₂_map_left_iff.mpr (List.forall₂_map_right_iff.mpr
      (List.forall₂_same.mpr fun pair member => ⟨rfl, rfl, rfl, pair.1, ?_, rfl⟩))
    exact typed.mem_walk.mp member
  ordered := pool.visibleEntries_sublist

end Pool

theorem Layer.Matches.keys_eq {layer : Layer} {registry : Registry} {compiled : Compiled}
    (fits : layer.Matches registry compiled) :
    layer.entries.map Prod.fst = registry.keys :=
  map_eq_map_of_forall₂ fits fun _ _ fit => fit.1

namespace Host

variable {host : Host}

/-- Enumeration agrees with lookup for every pool of a host. The layers of a pool are those of its
scope and of the scopes above, and each has the keys of the registry of its scope in the order of
their registration. -/
theorem Reachable.enumeration_agrees (reachable : host.Reachable) :
    (∀ pool, host.Offers pool → pool.Enumerates) ∧
      ∀ (assembly : Assembly) (number : Nat) (application : Application),
        host.assembly = some assembly → host.build.1 = some (.application number application) →
        (∀ (index : Nat) (scope : Scope), assembly.scopes[index]? = some scope →
          ∃ (pool : Pool) (registry : Registry), application.pools[index]? = some pool ∧
            assembly.survey.registries[index]? = some registry ∧
            pool.layer.entries.map Prod.fst = registry.keys ∧ pool.name = scope.name ∧
            (scope.parent = none → pool.ancestors = []) ∧
            ∀ parent : ScopeId, scope.parent = some parent → ∃ upper : Pool,
              application.pools[parent.index]? = some upper ∧ pool.ancestors = upper.layers) ∧
        application.exports.layer.entries.map Prod.fst = assembly.survey.exports.keys ∧
        application.exports.ancestors = [] := by
  have sound := reachable.sound
  refine ⟨fun pool offers => (sound.typed pool offers).enumerates,
    fun assembly number application current built => ?_⟩
  have wellFormed := sound.wellFormed assembly current
  obtain ⟨state, compiles⟩ := sound.exists_compiles current built
  refine ⟨fun index scope place => ?_, compiles.exports.keys_eq, compiles.alone⟩
  obtain ⟨pool, registry, found, held, name⟩ := compiles.exists_pool place
  obtain ⟨other, same, fits⟩ := compiles.scope_matches found
  obtain rfl := Option.some.inj (held.symm.trans same)
  obtain ⟨root, below⟩ := compiles.ancestors_eq wellFormed place found
  exact ⟨pool, registry, found, held, fits.keys_eq, name, root,
    fun parent above => (below parent above).2⟩

/-- The scope below shows its own two numbers, and of those above the one that it does not hide. -/
theorem enumeration_agrees_sample :
    ∃ pool, overlaid.build.2.Offers pool ∧ pool.Enumerates ∧
      pool.services.map (fun service => (service.key, service.scope)) =
        [(.of .u8, "outer/inner"), (.qualified .u8 "other", "outer/inner"), (.of .u16, "outer")] ∧
      ∃ entry, pool.find? (.of .u16) = some entry ∧ entry ∈ pool.visibleEntries := by
  have seen : ((⟨0, .scope 1, false⟩ : PoolPath).resolve? overlaid.build.2.applications).map
      (fun pool => pool.services.map fun service => (service.key, service.scope)) =
      some [(.of .u8, "outer/inner"), (.qualified .u8 "other", "outer/inner"),
        (.of .u16, "outer")] := by decide +kernel
  obtain ⟨pool, place, services⟩ := Option.map_eq_some_iff.mp seen
  have offers := offers_of_resolve? place
  have reachable := reachable_overlaid.leads (.single (.build overlaid))
  have enumerates := reachable.enumeration_agrees.1 pool offers
  have listed : Key.of .u16 ∈ pool.visibleEntries.map RuntimeEntry.key := by
    have keys := congrArg (List.map Prod.fst) services
    rw [List.map_map] at keys
    rw [← Pool.keys_services]
    exact keys ▸ by simp
  obtain ⟨entry, member, key⟩ := List.mem_map.mp listed
  exact ⟨pool, offers, enumerates, services, entry, key ▸ (enumerates.found entry).mp member,
    member⟩

end Host

end Wiring
