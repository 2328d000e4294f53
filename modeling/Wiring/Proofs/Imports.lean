import Mathlib.Logic.Relation
import Wiring.Proofs.Changes
import Wiring.Proofs.Provenance
import Wiring.Stock

/-!
Imports: what the population makes of the declarations, entry by entry. The sources of a scope are
complete when its turn comes, and each import makes one entry for every key of its source that it
keeps, in the order of the source. The scope registers its declared providers and these entries, of
each key the first.
-/

namespace Wiring

/-- Of each key the first registration, in order. -/
def firstOfEach (pairs : List (Key × EntryId)) : List (Key × EntryId) :=
  pairs.eraseDupsBy fun left right => left.1 == right.1

theorem firstOfEach_cons (pair : Key × EntryId) (rest : List (Key × EntryId)) :
    firstOfEach (pair :: rest) =
      pair :: firstOfEach (rest.filter fun other => !(other.1 == pair.1)) := by
  unfold firstOfEach
  rw [List.eraseDupsBy_cons]
  congr 3
  funext other
  cases other.1 == pair.1 <;> rfl

/-- What holds of no registrations, and of some when it holds of those after the first one that have
other keys, holds of all registrations. -/
theorem firstOfEach_induct {property : List (Key × EntryId) → Prop} (nil : property [])
    (cons : ∀ pair rest, property (rest.filter fun other => !(other.1 == pair.1)) →
      property (pair :: rest)) (pairs : List (Key × EntryId)) : property pairs := by
  induction length : pairs.length using Nat.strongRecOn generalizing pairs with
  | ind size ih =>
    cases pairs with
    | nil => exact nil
    | cons pair rest =>
      refine cons pair rest (ih _ ?_ _ rfl)
      rw [← length]
      exact Nat.lt_succ_of_le (List.length_filter_le _ rest)

theorem mem_keys_filter {pairs : List (Key × EntryId)} {key other : Key}
    (different : key ≠ other) :
    key ∈ (pairs.filter fun pair => !(pair.1 == other)).map Prod.fst ↔
      key ∈ pairs.map Prod.fst := by
  simp only [List.mem_map, List.mem_filter]
  constructor
  · rintro ⟨pair, ⟨member, -⟩, rfl⟩
    exact ⟨pair, member, rfl⟩
  · rintro ⟨pair, member, rfl⟩
    exact ⟨pair, ⟨member, by simpa using different⟩, rfl⟩

theorem mem_keys_firstOfEach {pairs : List (Key × EntryId)} {key : Key} :
    key ∈ (firstOfEach pairs).map Prod.fst ↔ key ∈ pairs.map Prod.fst := by
  induction pairs using firstOfEach_induct with
  | nil => rfl
  | cons pair rest ih =>
    rw [firstOfEach_cons, List.map_cons, List.mem_cons, ih, List.map_cons, List.mem_cons]
    by_cases same : key = pair.1
    · simp [same]
    · rw [mem_keys_filter same]

/-- A further registration counts when its key is new. -/
theorem firstOfEach_append_singleton (pairs : List (Key × EntryId)) (pair : Key × EntryId) :
    firstOfEach (pairs ++ [pair]) =
      if pair.1 ∈ pairs.map Prod.fst then firstOfEach pairs else firstOfEach pairs ++ [pair] := by
  induction pairs using firstOfEach_induct with
  | nil => rfl
  | cons first rest ih =>
    rw [List.cons_append, firstOfEach_cons, List.filter_append, firstOfEach_cons, List.map_cons]
    by_cases same : pair.1 = first.1
    · simp [same]
    · have kept : [pair].filter (fun other => !(other.1 == first.1)) = [pair] := by simp [same]
      rw [kept, ih]
      simp only [mem_keys_filter same, List.mem_cons, same, false_or]
      split <;> rfl

/-- Entries with their numbers, from a position on. -/
def numbered (entries : List Entry) (first : Nat) : List (EntryId × Entry) :=
  (entries.zipIdx first).map fun pair => (⟨pair.2⟩, pair.1)

/-- Numbered entries as registrations under their own keys. -/
def byKey (items : List (EntryId × Entry)) : List (Key × EntryId) :=
  items.map fun item => (item.2.key, item.1)

theorem numbered_append (entries more : List Entry) (first : Nat) :
    numbered (entries ++ more) first =
      numbered entries first ++ numbered more (first + entries.length) := by
  unfold numbered
  rw [List.zipIdx_append, List.map_append]

theorem mem_numbered {entries : List Entry} {item : EntryId × Entry} :
    item ∈ numbered entries 0 ↔ entries[item.1.index]? = some item.2 := by
  unfold numbered
  rw [List.mem_map]
  constructor
  · rintro ⟨pair, member, rfl⟩
    exact List.mem_zipIdx_iff_getElem?.mp member
  · intro found
    exact ⟨(item.2, item.1.index), List.mem_zipIdx_iff_getElem?.mpr found, rfl⟩

theorem pairwise_numbered (entries : List Entry) (first : Nat) :
    (numbered entries first).Pairwise fun earlier later =>
      earlier.1.index < later.1.index := by
  have positions : ((numbered entries first).map fun item => item.1.index).Pairwise (· < ·) := by
    unfold numbered
    rw [List.map_map]
    change ((entries.zipIdx first).map Prod.snd).Pairwise (· < ·)
    rw [List.zipIdx_map_snd]
    exact List.pairwise_lt_range'
  exact List.pairwise_map.mp positions

theorem map_snd_numbered (entries : List Entry) (first : Nat) :
    (numbered entries first).map Prod.snd = entries := by
  unfold numbered
  rw [List.map_map]
  exact List.zipIdx_map_fst first entries

/-- The declared providers of a scope under their keys, in the order of their declaration. -/
def Scope.registers (entries : List Entry) (scope : Scope) : List (Key × EntryId) :=
  scope.declared.filterMap fun id => entries[id.index]?.map fun entry => (entry.key, id)

/-- The entries that an import makes in a scope from the row of its source. -/
def Import.makes (scopes : List Scope) (scope : ScopeId) (imported : Import) (row : Row) :
    List Entry :=
  (imported.spec.keeps row).map fun kept =>
    .ofDelegate kept.1 kept.2 scope (imported.label scopes)

theorem Import.makes_cons (scopes : List Scope) (scope : ScopeId) (imported : Import)
    (candidate : Key × Delegate) (rest : Row) :
    imported.makes scopes scope (candidate :: rest) =
      imported.makes scopes scope [candidate] ++ imported.makes scopes scope rest := by
  unfold makes ImportSpec.keeps
  rw [← List.map_append, ← List.filterMap_append, List.singleton_append]

namespace Draft

/-- The delegates among the entries of a scope, in order. -/
def arrivals (draft : Draft) (scope : ScopeId) : List (EntryId × Entry) :=
  (numbered draft.entries 0).filter fun item => item.2.isDelegate ∧ item.2.scope = scope

variable {offered : Pool → Prop} {assembly : Assembly} {draft : Draft}

/-- From the first draft to the second one the entries were made, and a scope was offered the
registrations; the other registries stay. -/
structure Files (before after : Draft) (scope : ScopeId) (named : List (Key × EntryId))
    (made : List Entry) : Prop where
  entries : after.entries = before.entries ++ made
  registered : ∀ pairs, (before.registry scope).registrations = firstOfEach pairs →
    (after.registry scope).registrations = firstOfEach (pairs ++ named)
  others : ∀ other, other ≠ scope → after.registry other = before.registry other
  length : after.registries.length = before.registries.length

theorem Files.refl (draft : Draft) (scope : ScopeId) : draft.Files draft scope [] [] where
  entries := (List.append_nil _).symm
  registered pairs held := by rwa [List.append_nil]
  others _ _ := rfl
  length := rfl

theorem Files.trans {first second third : Draft} {scope : ScopeId}
    {named more : List (Key × EntryId)} {made rest : List Entry}
    (files : first.Files second scope named made) (onward : second.Files third scope more rest) :
    first.Files third scope (named ++ more) (made ++ rest) where
  entries := by rw [onward.entries, files.entries, List.append_assoc]
  registered pairs held := by
    rw [← List.append_assoc]
    exact onward.registered _ (files.registered pairs held)
  others other different := (onward.others other different).trans (files.others other different)
  length := onward.length.trans files.length

/-- A registry takes the first registration under each key. -/
theorem files_register (draft : Draft) (scopes : List Scope) {scope : ScopeId} (key : Key)
    (id : EntryId) (inside : scope.index < draft.registries.length) :
    draft.Files (draft.register scopes scope key id) scope [(key, id)] [] := by
  have taken {pairs : List (Key × EntryId)}
      (held : (draft.registry scope).registrations = firstOfEach pairs) :
      (draft.registry scope).get? key ≠ none ↔ key ∈ pairs.map Prod.fst := by
    rw [← mem_keys_firstOfEach, ← held, ← Option.isSome_iff_ne_none]
    exact Registry.contains_iff_mem_keys
  unfold register Registry.put
  cases free : (draft.registry scope).get? key with
  | some existing =>
    refine ⟨(List.append_nil _).symm, fun pairs held => ?_, fun _ _ => rfl, rfl⟩
    rw [firstOfEach_append_singleton, if_pos ((taken held).mp (by simp [free]))]
    exact held
  | none =>
    refine ⟨(List.append_nil _).symm, fun pairs held => ?_, fun other different => ?_, by simp⟩
    · rw [firstOfEach_append_singleton, if_neg fun member => (taken held).mpr member free,
        registry_set, if_pos ⟨rfl, inside⟩, ← held]
      rfl
    · rw [registry_set, if_neg]
      rintro ⟨same, -⟩
      exact different (congrArg ScopeId.mk same.symm)

theorem files_push (draft : Draft) (entry : Entry) (scope : ScopeId) :
    draft.Files (draft.push entry).2 scope [] [entry] where
  entries := rfl
  registered pairs held := by rwa [List.append_nil]
  others _ _ := rfl
  length := rfl

theorem files_offer (draft : Draft) (scopes : List Scope) {scope : ScopeId} (imported : Import)
    (candidate : Key × Delegate) (inside : scope.index < draft.registries.length) :
    draft.Files (draft.offer scopes scope imported candidate) scope
      (byKey (numbered (imported.makes scopes scope [candidate]) draft.entries.length))
      (imported.makes scopes scope [candidate]) := by
  unfold offer Import.makes ImportSpec.keeps
  rw [List.filterMap_cons]
  cases kept : imported.spec.apply candidate.1 with
  | none => exact .refl draft scope
  | some key =>
    exact (draft.files_push _ scope).trans
      (files_register (draft.push (.ofDelegate key candidate.2 scope (imported.label scopes))).2
        scopes key _ inside)

/-- Entries that are made in two parts are numbered one after the other. -/
theorem Files.then_made {first second third : Draft} {scope : ScopeId} {made rest : List Entry}
    (files : first.Files second scope (byKey (numbered made first.entries.length)) made)
    (onward : second.Files third scope (byKey (numbered rest second.entries.length)) rest) :
    first.Files third scope (byKey (numbered (made ++ rest) first.entries.length))
      (made ++ rest) := by
  have both := files.trans onward
  rwa [files.entries, List.length_append, byKey, byKey, ← List.map_append, ← numbered_append]
    at both

/-- An import makes an entry for each key of its source that it keeps. -/
theorem files_bringIn (draft : Draft) (scopes : List Scope) {scope : ScopeId} (imported : Import)
    (inside : scope.index < draft.registries.length) :
    draft.Files (draft.bringIn scopes scope imported) scope
      (byKey (numbered (imported.makes scopes scope (imported.spec.source.row draft.row))
        draft.entries.length))
      (imported.makes scopes scope (imported.spec.source.row draft.row)) := by
  unfold bringIn
  rw [← candidates_eq]
  generalize draft.candidates imported.spec.source = candidates
  induction candidates generalizing draft with
  | nil => exact .refl draft scope
  | cons candidate rest ih =>
    rw [Import.makes_cons]
    have first := draft.files_offer scopes imported candidate inside
    exact first.then_made (ih _ (by rwa [first.length]))

/-- The declared providers are offered to their scope one after the other. -/
theorem Sound.files_enrollEach (sound : draft.Sound assembly) {scope : ScopeId}
    (inside : scope.index < assembly.scopes.length) (ids : List EntryId)
    (known : ∀ id ∈ ids, ∃ entry, assembly.entries[id.index]? = some entry) :
    draft.Files (ids.foldl (enroll assembly.scopes scope) draft) scope
      (ids.filterMap fun id => assembly.entries[id.index]?.map fun entry => (entry.key, id))
      [] := by
  induction ids generalizing draft with
  | nil => exact .refl draft scope
  | cons id rest ih =>
    obtain ⟨entry, found⟩ := known id List.mem_cons_self
    have enrolled : draft.enroll assembly.scopes scope id =
        draft.register assembly.scopes scope entry.key id := by
      simp only [enroll, sound.declared found]
    have files := files_register draft assembly.scopes entry.key id
      (by rwa [sound.length_registries])
    have next := (evolves_enroll assembly.scopes scope draft id sound).1
    rw [List.filterMap_cons, found]
    rw [← enrolled] at files
    exact files.trans (ih next fun other member => known other (List.mem_cons_of_mem _ member))

/-- Imports of a scope from other scopes and from built pools are brought in one after the other. -/
theorem Sound.files_bringInEach (sound : draft.Sound assembly)
    (wellFormed : assembly.WellFormed offered) {scope : ScopeId} {data : Scope}
    (here : assembly.scopes[scope.index]? = some data) {rows : ScopeId → Row}
    (apart : scope.index ∉ data.scopeSources)
    (same : ∀ other, other ≠ scope → draft.row other = rows other) {imports : List Import}
    (listed : imports ⊆ data.imports) :
    draft.Files (imports.foldl (bringIn assembly.scopes scope) draft) scope
      (byKey (numbered (imports.flatMap fun imported =>
        imported.makes assembly.scopes scope (imported.spec.source.row rows))
        draft.entries.length))
      (imports.flatMap fun imported =>
        imported.makes assembly.scopes scope (imported.spec.source.row rows)) := by
  induction imports generalizing draft with
  | nil => exact .refl draft scope
  | cons imported rest ih =>
    have member : imported ∈ data.imports := listed List.mem_cons_self
    have next := (evolves_bringIn wellFormed here member draft sound).1
    have brought := sound.fills_bringIn wellFormed here member
    have source : imported.spec.source.row draft.row = imported.spec.source.row rows := by
      refine Scope.row_congr (fun source taken => same ⟨source⟩ ?_) member
      rintro rfl
      exact apart taken
    have files := draft.files_bringIn assembly.scopes imported
      (by rw [sound.length_registries]; exact (List.getElem?_eq_some_iff.mp here).1)
    rw [source] at files
    rw [List.flatMap_cons]
    refine files.then_made (ih next (fun other different => ?_) fun _ later =>
      listed (List.mem_cons_of_mem _ later))
    rw [brought.others other different, same other different]

/-- A scope that does not import from itself registers its declared providers and the entries that
its imports make. -/
theorem Sound.files_populate (sound : draft.Sound assembly)
    (wellFormed : assembly.WellFormed offered) {scope : ScopeId} {data : Scope}
    (here : assembly.scopes[scope.index]? = some data)
    (apart : scope.index ∉ data.scopeSources) :
    draft.Files (draft.populate assembly.scopes scope) scope
      (data.registers assembly.entries ++
        byKey (numbered (data.imports.flatMap fun imported =>
          imported.makes assembly.scopes scope (imported.spec.source.row draft.row))
          draft.entries.length))
      (data.imports.flatMap fun imported =>
        imported.makes assembly.scopes scope (imported.spec.source.row draft.row)) := by
  have inside := (List.getElem?_eq_some_iff.mp here).1
  have enrolls := sound.files_enrollEach inside data.declared fun id member => by
    obtain ⟨entry, found, -⟩ := wellFormed.listed scope.index data here id member
    exact ⟨entry, found⟩
  have enrolled := (evolves_foldl _ data.declared
    (fun id _ middle => evolves_enroll assembly.scopes scope middle id) draft sound).1
  have same (other : ScopeId) (different : other ≠ scope) :
      (data.declared.foldl (enroll assembly.scopes scope) draft).row other = draft.row other := by
    unfold row
    rw [enrolls.others other different, enrolls.entries, List.append_nil]
  have imports := enrolled.files_bringInEach wellFormed here apart same (List.Subset.refl _)
  rw [enrolls.entries, List.append_nil] at imports
  have both := enrolls.trans imports
  unfold populate
  rw [here]
  exact ⟨both.entries, both.registered, both.others, both.length⟩

/-- New entries, all of them delegates of one scope, arrive there and nowhere else. -/
theorem arrivals_append {after : Draft} {made : List Entry} {scope : ScopeId}
    (entries : after.entries = draft.entries ++ made)
    (all : ∀ entry ∈ made, entry.isDelegate = true ∧ entry.scope = scope) (other : ScopeId) :
    after.arrivals other =
      draft.arrivals other ++ if other = scope then numbered made draft.entries.length else [] := by
  unfold arrivals
  rw [entries, numbered_append, List.filter_append, Nat.zero_add]
  refine congrArg _ ?_
  have known (item : EntryId × Entry) (member : item ∈ numbered made draft.entries.length) :
      item.2.isDelegate = true ∧ item.2.scope = scope := by
    have among := List.mem_map_of_mem (f := Prod.snd) member
    rw [map_snd_numbered] at among
    exact all item.2 among
  split
  · rename_i same
    refine List.filter_eq_self.mpr fun item member => ?_
    simpa [same] using known item member
  · rename_i different
    refine List.filter_eq_nil_iff.mpr fun item member arrives => different ?_
    have here : item.2.isDelegate = true ∧ item.2.scope = other := by simpa using arrives
    exact here.2.symm.trans (known item member).2

/-- What holds of the entries when the scopes at the given positions are filled. -/
structure Brought (assembly : Assembly) (done : List Nat) (draft : Draft) : Prop where
  bare : ∀ index, index ∉ done →
    draft.arrivals ⟨index⟩ = [] ∧ (draft.registry ⟨index⟩).registrations = []
  filled : ∀ index ∈ done, ∀ data, assembly.scopes[index]? = some data →
    (draft.registry ⟨index⟩).registrations =
      firstOfEach (data.registers assembly.entries ++ byKey (draft.arrivals ⟨index⟩)) ∧
    (draft.arrivals ⟨index⟩).map Prod.snd = data.imports.flatMap fun imported =>
      imported.makes assembly.scopes ⟨index⟩ (imported.spec.source.row draft.row)

theorem brought_nil (wellFormed : assembly.WellFormed offered) :
    Brought assembly [] assembly.orderedDraft where
  bare index _ := by
    refine ⟨List.filter_eq_nil_iff.mpr fun item member arrives => ?_, ?_⟩
    · have proper := wellFormed.entries _ _ (mem_numbered.mp member)
      have delegates : item.2.isDelegate = true ∧ item.2.scope = ⟨index⟩ := by simpa using arrives
      exact Bool.false_ne_true (proper.isDelegate.symm.trans delegates.1)
    · unfold registry
      cases found : assembly.orderedDraft.registries[index]? with
      | none => rfl
      | some registry =>
        obtain ⟨pair, -, rfl⟩ := List.mem_map.mp (List.mem_of_getElem? found)
        rfl
  filled _ member := nomatch member

/-- A scope whose sources are filled receives what its imports make of them. -/
theorem Brought.populate {done : List Nat} (brought : Brought assembly done draft)
    (populated : Populated assembly done draft) (wellFormed : assembly.WellFormed offered)
    {index : Nat} (fresh : index ∉ done)
    (ready : ∀ source ∈ sourcesAt assembly.scopes index, source ∈ done)
    (inside : index < assembly.scopes.length) :
    Brought assembly (done ++ [index]) (draft.populate assembly.scopes ⟨index⟩) := by
  have here := List.getElem?_eq_getElem inside
  generalize assembly.scopes[index] = data at here
  rw [sourcesAt_of_getElem? here] at ready
  have apart : index ∉ data.scopeSources := fun self => fresh (ready index self)
  have files := populated.sound.files_populate wellFormed here apart
  have fills := populated.sound.fills_populate wellFormed here apart
  generalize draft.populate assembly.scopes ⟨index⟩ = after at files fills ⊢
  have kept {other : Nat} (known : other ≠ index) : after.row ⟨other⟩ = draft.row ⟨other⟩ :=
    fills.others ⟨other⟩ fun same => known (ScopeId.mk.inj same)
  have arrives (other : Nat) := arrivals_append files.entries (fun entry member => by
    obtain ⟨imported, -, made⟩ := List.mem_flatMap.mp member
    obtain ⟨pair, -, rfl⟩ := List.mem_map.mp made
    exact ⟨rfl, (rfl : _ = (⟨index⟩ : ScopeId))⟩) ⟨other⟩
  refine ⟨fun other absent => ?_, fun other member scope place => ?_⟩
  · rw [List.mem_append, List.mem_singleton, not_or] at absent
    have elsewhere : (⟨other⟩ : ScopeId) ≠ ⟨index⟩ := fun same => absent.2 (ScopeId.mk.inj same)
    rw [arrives, if_neg elsewhere, List.append_nil, files.others _ elsewhere]
    exact brought.bare other absent.1
  · rcases List.mem_append.mp member with old | new
    · have elsewhere : (⟨other⟩ : ScopeId) ≠ ⟨index⟩ := by
        rintro same
        exact fresh (ScopeId.mk.inj same ▸ old)
      obtain ⟨registered, made⟩ := brought.filled other old scope place
      rw [arrives, if_neg elsewhere, List.append_nil, files.others _ elsewhere]
      refine ⟨registered, made.trans (List.flatMap_congr fun imported listed => ?_)⟩
      refine congrArg _ (Scope.row_congr (fun source taken => (kept ?_).symm) listed)
      rintro rfl
      exact fresh (populated.sources other old source (by rwa [sourcesAt_of_getElem? place]))
    · obtain rfl := List.mem_singleton.mp new
      obtain rfl := Option.some.inj (here.symm.trans place)
      obtain ⟨nothing, empty⟩ := brought.bare other fresh
      rw [arrives, nothing, if_pos rfl, List.nil_append]
      refine ⟨files.registered [] empty, ?_⟩
      · rw [map_snd_numbered]
        refine List.flatMap_congr fun imported listed => ?_
        refine congrArg _ (Scope.row_congr (fun source taken => (kept ?_).symm) listed)
        rintro rfl
        exact apart taken

/-- Scopes are filled one after the other, sources first. -/
theorem Brought.foldl (wellFormed : assembly.WellFormed offered) {order done : List Nat}
    (brought : Brought assembly done draft) (populated : Populated assembly done draft)
    (first : SourcesFirst assembly.scopes done order)
    (inside : ∀ index ∈ order, index < assembly.scopes.length) :
    Brought assembly (done ++ order)
      ((order.map ScopeId.mk).foldl (Draft.populate assembly.scopes) draft) := by
  induction order generalizing done draft with
  | nil => rwa [List.append_nil]
  | cons index rest ih =>
    obtain ⟨fresh, ready, onward⟩ := first
    have within := inside index List.mem_cons_self
    have next := brought.populate populated wellFormed fresh ready within
    rw [← List.singleton_append, ← List.append_assoc]
    exact ih next (populated.populate wellFormed fresh ready within) onward
      fun other later => inside other (List.mem_cons_of_mem _ later)

end Draft

/-- Without a chain of imports from a scope back to it, no circle is found. -/
theorem importCycles_of_acyclic {scopes : List Scope}
    (contained : Contained scopes.length (sourcesAt scopes))
    (acyclic : ∀ index,
      ¬ Relation.TransGen (fun importer source => source ∈ sourcesAt scopes importer) index index) :
    importCycles scopes = [] := by
  unfold importCycles
  rw [List.map_eq_nil_iff]
  refine Search.cycles_of_acyclic (fun index inside source blocks =>
    contained index inside source (ImportOrdering.mem_of_blocking blocks)) fun index loop => ?_
  exact acyclic index (Relation.TransGen.mono (fun _ _ => ImportOrdering.mem_of_blocking) _ _ loop)

/-- A scope imports from another one, and the import gives the second key for the first. -/
inductive Forwards (scopes : List Scope) : ScopeId × Key → ScopeId × Key → Prop
  | mk {importer source : ScopeId} {data : Scope} {imported : Import} {key renamed : Key}
    (here : scopes[importer.index]? = some data) (member : imported ∈ data.imports)
    (taken : imported.spec.source = .scope source) (kept : imported.spec.apply key = some renamed) :
    Forwards scopes (source, key) (importer, renamed)

namespace Assembly

/-- The entries that are declared in a scope with their numbers, in the order of declaration. -/
def providers (assembly : Assembly) (scope : ScopeId) : List (EntryId × Entry) :=
  (numbered assembly.entries 0).filter fun item => item.2.scope = scope

variable {offered : Pool → Prop} {assembly : Assembly} {index : Nat} {data : Scope}

theorem mem_providers {scope : ScopeId} {item : EntryId × Entry} :
    item ∈ assembly.providers scope ↔
      assembly.entries[item.1.index]? = some item.2 ∧ item.2.scope = scope := by
  rw [providers, List.mem_filter, mem_numbered, decide_eq_true_eq]

/-- A scope lists the entries that are declared in it. -/
theorem Ordered.declared_eq (ordered : assembly.Ordered) (wellFormed : assembly.WellFormed offered)
    (here : assembly.scopes[index]? = some data) :
    data.declared = (assembly.providers ⟨index⟩).map Prod.fst := by
  have sorted : (assembly.providers ⟨index⟩).Pairwise fun earlier later =>
      earlier.1.index < later.1.index := (pairwise_numbered _ _).filter _
  refine eq_of_pairwise_index (ordered.declared data (List.mem_of_getElem? here)).1
    (List.pairwise_map.mpr sorted) fun id => ?_
  rw [List.mem_map]
  constructor
  · intro listed
    obtain ⟨entry, found, home⟩ := wellFormed.listed index data here id listed
    exact ⟨(id, entry), mem_providers.mpr ⟨found, home⟩, rfl⟩
  · rintro ⟨item, member, rfl⟩
    obtain ⟨found, home⟩ := mem_providers.mp member
    obtain ⟨other, place, listed⟩ := wellFormed.placed _ _ found
    rw [home] at place
    obtain rfl := Option.some.inj (here.symm.trans place)
    exact listed

theorem Ordered.registers_eq (ordered : assembly.Ordered)
    (wellFormed : assembly.WellFormed offered) (here : assembly.scopes[index]? = some data) :
    data.registers assembly.entries = byKey (assembly.providers ⟨index⟩) := by
  unfold Scope.registers byKey
  rw [ordered.declared_eq wellFormed here, List.filterMap_map, ← List.filterMap_eq_map]
  refine List.filterMap_congr fun item member => ?_
  rw [Function.comp_apply, (mem_providers.mp member).1]
  rfl

theorem populatedDraft_brought (wellFormed : assembly.WellFormed offered)
    (acyclic : importCycles assembly.scopes = []) (here : assembly.scopes[index]? = some data) :
    (assembly.populatedDraft.registry ⟨index⟩).registrations =
      firstOfEach (data.registers assembly.entries ++
        byKey (assembly.populatedDraft.arrivals ⟨index⟩)) ∧
    (assembly.populatedDraft.arrivals ⟨index⟩).map Prod.snd = data.imports.flatMap fun imported =>
      imported.makes assembly.scopes ⟨index⟩
        (imported.spec.source.row assembly.populatedDraft.row) := by
  obtain ⟨order, orders, first, all⟩ := sourcesFirst_importOrder wellFormed.contained acyclic
  have brought := (Draft.brought_nil wellFormed).foldl wellFormed (Draft.populated_nil assembly)
    first fun index member => (all index).mp member
  rw [← orders] at brought
  exact brought.filled index ((all index).mpr (List.getElem?_eq_some_iff.mp here).1) data here

/-- Before anything is exported, a scope holds what declarations and imports bring there. -/
theorem supplies_of_mem_populatedDraft (wellFormed : assembly.WellFormed offered)
    (typed : ∀ pool, offered pool → pool.Typed) (acyclic : importCycles assembly.scopes = [])
    {scope : ScopeId} {key : Key} {target : Delegate}
    (held : (key, target) ∈ assembly.populatedDraft.row scope) :
    assembly.Supplies scope key target := by
  obtain ⟨index⟩ := scope
  induction (importCycles_eq_nil wellFormed.contained).mp acyclic index generalizing key target with
  | intro index _ ih =>
    cases here : assembly.scopes[index]? with
    | none =>
      have sound := (populatedDraft_evolves wellFormed (orderedDraft_sound assembly)).1
      rw [sound.row_eq_nil here] at held
      cases held
    | some data =>
      have found := Row.get?_of_mem (nodup_populatedDraft wellFormed (some ⟨index⟩)) held
      rw [Draft.rowOf, row_populatedDraft wellFormed acyclic here, Row.get?_receiveAll] at found
      refine supplies_of_mem_offers wellFormed typed here (fun source member key target =>
        ih source ?_) (Row.mem_of_get? found)
      rwa [sourcesAt_of_getElem? here]

/-- No source offers a key twice. -/
theorem nodup_source (wellFormed : assembly.WellFormed offered) (imported : Import) :
    (imported.spec.source.row assembly.populatedDraft.row).keys.Nodup := by
  cases imported.spec.source with
  | scope source => exact nodup_populatedDraft wellFormed (some source)
  | pool built =>
    unfold ImportSource.row Row.keys
    rw [List.map_map]
    exact built.nodup_visibleEntries

/-- Whatever a scope registers under a key that an import of another scope keeps arrives there, with
the same producer. -/
theorem exists_arrival (wellFormed : assembly.WellFormed offered)
    (acyclic : importCycles assembly.scopes = []) (here : assembly.scopes[index]? = some data)
    {imported : Import} (member : imported ∈ data.imports) {source : ScopeId}
    (taken : imported.spec.source = .scope source) {key renamed : Key} {id : EntryId}
    (held : (key, id) ∈ (assembly.populatedDraft.registry source).registrations)
    (kept : imported.spec.apply key = some renamed) :
    ∃ arrival ∈ assembly.populatedDraft.arrivals ⟨index⟩, arrival.2.key = renamed ∧
      sameProducer assembly.populatedDraft.entries arrival.1 id = true := by
  have sound := (populatedDraft_evolves wellFormed (orderedDraft_sound assembly)).1
  have made : Entry.ofDelegate renamed (delegateTo assembly.populatedDraft.entries id) ⟨index⟩
      (imported.label assembly.scopes) ∈
        (assembly.populatedDraft.arrivals ⟨index⟩).map Prod.snd := by
    rw [(populatedDraft_brought wellFormed acyclic here).2]
    refine List.mem_flatMap.mpr ⟨imported, member, List.mem_map.mpr ⟨(renamed, _), ?_, rfl⟩⟩
    rw [taken]
    exact Row.mem_keeps.mpr ⟨key, List.mem_map_of_mem held, kept⟩
  obtain ⟨arrival, among, same⟩ := List.mem_map.mp made
  have place := mem_numbered.mp (List.mem_filter.mp among).1
  obtain ⟨entry, found, -⟩ := sound.holds_registry source _ held
  refine ⟨arrival, among, by rw [same]; rfl, (sound.sameProducer_iff wellFormed place found).mpr ?_⟩
  have leads : delegateTo assembly.populatedDraft.entries arrival.1 =
      delegateTo assembly.populatedDraft.entries id := by
    conv_lhs => unfold delegateTo
    rw [place, same]
    rfl
  rw [leads]
  exact .refl _

end Assembly

namespace Forwards

variable {offered : Pool → Prop} {assembly : Assembly} {first second : ScopeId × Key}

/-- An import that keeps what another scope registers takes the key that it gives. -/
theorem mem_keys (forwards : Forwards assembly.scopes first second)
    (wellFormed : assembly.WellFormed offered) (acyclic : importCycles assembly.scopes = [])
    (held : first.2 ∈ (assembly.populatedDraft.registry first.1).keys) :
    second.2 ∈ (assembly.populatedDraft.registry second.1).keys := by
  cases forwards with
  | @mk importer source data imported key renamed here member taken kept =>
    obtain ⟨⟨_, id⟩, among, rfl⟩ := List.mem_map.mp held
    obtain ⟨arrival, arrived, rfl, -⟩ :=
      Assembly.exists_arrival wellFormed acyclic here member taken among kept
    rw [Registry.keys, (Assembly.populatedDraft_brought wellFormed acyclic here).1,
      mem_keys_firstOfEach, List.map_append, List.mem_append]
    exact .inr (List.mem_map.mpr ⟨_, List.mem_map_of_mem arrived, rfl⟩)

/-- Where no key is offered twice, an import hands on the producer. -/
theorem mem_row (forwards : Forwards assembly.scopes first second)
    (wellFormed : assembly.WellFormed offered)
    (clean : assembly.populatedDraft.diagnostics.isEmpty = true) {target : Delegate}
    (held : (first.2, target) ∈ assembly.populatedDraft.row first.1) :
    (second.2, target) ∈ assembly.populatedDraft.row second.1 := by
  obtain ⟨acyclic, distinct⟩ := (Assembly.populatedDraft_isEmpty wellFormed).mp clean
  cases forwards with
  | @mk importer source data imported key renamed here member taken kept =>
    rw [Assembly.row_populatedDraft wellFormed acyclic here,
      (Row.fresh_nil.mpr (distinct importer.index data here)).receiveAll_eq, List.nil_append,
      Scope.offers, List.mem_append, List.mem_flatMap]
    refine .inr ⟨imported, member, ?_⟩
    rw [taken]
    exact Row.mem_keeps.mpr ⟨key, held, kept⟩

end Forwards

namespace Host

variable {host : Host} {assembly : Assembly}

/-- Imports are exact. When no chain of imports leads from a scope back to it, every scope
registers, once all of them are filled, of each key the first among its declared providers and the
delegates that its imports make one after the other: one for each registration of the complete
source whose key the import keeps, in the order of the source, and for a built pool one for each
visible entry. No source offers a key twice. Thereby imports reach over any number of scopes, and
nothing comes to a scope but what declarations and imports bring there. -/
theorem Reachable.imports_exact (reachable : host.Reachable)
    (current : host.assembly = some assembly)
    (acyclic : ∀ index, ¬ Relation.TransGen
      (fun importer source => source ∈ sourcesAt assembly.scopes importer) index index) :
    (∀ (index : Nat) (data : Scope), assembly.scopes[index]? = some data →
        (assembly.populatedDraft.registry ⟨index⟩).registrations =
          firstOfEach (byKey (assembly.providers ⟨index⟩) ++
            byKey (assembly.populatedDraft.arrivals ⟨index⟩)) ∧
        (assembly.populatedDraft.arrivals ⟨index⟩).map Prod.snd =
          data.imports.flatMap (fun imported => imported.makes assembly.scopes ⟨index⟩
            (imported.spec.source.row assembly.populatedDraft.row)) ∧
        (assembly.populatedDraft.registry ⟨index⟩).keys.Nodup ∧
        ∀ imported ∈ data.imports,
          (imported.spec.source.row assembly.populatedDraft.row).keys.Nodup ∧
          (∀ pool, imported.spec.source = .pool pool → ∀ entry,
            entry ∈ pool.visibleEntries ↔ pool.find? entry.key = some entry) ∧
          ∀ (source : ScopeId), imported.spec.source = .scope source →
            ∀ (key renamed : Key) (id : EntryId),
              (key, id) ∈ (assembly.populatedDraft.registry source).registrations →
              imported.spec.apply key = some renamed →
              ∃ arrival ∈ assembly.populatedDraft.arrivals ⟨index⟩, arrival.2.key = renamed ∧
                sameProducer assembly.populatedDraft.entries arrival.1 id = true) ∧
      (∀ source importer, Relation.ReflTransGen (Forwards assembly.scopes) source importer →
        (source.2 ∈ (assembly.populatedDraft.registry source.1).keys →
          importer.2 ∈ (assembly.populatedDraft.registry importer.1).keys) ∧
        (assembly.populatedDraft.diagnostics.isEmpty = true → ∀ target,
          (source.2, target) ∈ assembly.populatedDraft.row source.1 →
          (importer.2, target) ∈ assembly.populatedDraft.row importer.1)) ∧
      (∀ (scope : ScopeId) (key : Key) (target : Delegate),
        (key, target) ∈ assembly.populatedDraft.row scope → assembly.Supplies scope key target) ∧
      assembly.populatedDraft.entries <+: assembly.survey.entries := by
  have wellFormed := reachable.sound.wellFormed assembly current
  have circleless := importCycles_of_acyclic wellFormed.contained acyclic
  refine ⟨fun index data here => ?_, fun source importer chain => ⟨fun held => ?_, fun clean => ?_⟩,
    fun scope key target => ?_, ?_⟩
  · obtain ⟨registered, made⟩ := Assembly.populatedDraft_brought wellFormed circleless here
    rw [(reachable.ordered current).registers_eq wellFormed here] at registered
    have distinct := Assembly.nodup_populatedDraft wellFormed (some ⟨index⟩)
    rw [Draft.rowOf, Draft.row, Registry.keys_row] at distinct
    refine ⟨registered, made, distinct, fun imported member =>
      ⟨Assembly.nodup_source wellFormed imported, fun pool taken entry => ?_,
        fun source taken key renamed id held kept =>
          Assembly.exists_arrival wellFormed circleless here member taken held kept⟩⟩
    have proper := (wellFormed.scopes index data here).imports imported member
    exact (reachable.sound.typed pool (proper.source pool taken)).mem_visibleEntries
  · induction chain with
    | refl => exact held
    | tail _ forwards ih => exact forwards.mem_keys wellFormed circleless ih
  · intro target held
    induction chain with
    | refl => exact held
    | tail _ forwards ih => exact forwards.mem_row wellFormed clean ih
  · exact Assembly.supplies_of_mem_populatedDraft wellFormed reachable.sound.typed circleless
  · have sound := (Assembly.populatedDraft_evolves wellFormed (Assembly.orderedDraft_sound _)).1
    rw [Assembly.survey_entries]
    exact (Assembly.exportedDraft_evolves wellFormed sound).2.entries

/-- A host that is about to build a number, which the root scope imports by way of another scope. -/
def forwarding : Host :=
  (Host.new.start (.named "outer")).declareEach
    [.link "source" ⟨"source", .nothing⟩ fun _ => [.provide (.given (.ofParts .u8 7 "") none) []],
      .link "relay" ⟨"relay", .nothing⟩ fun _ =>
        [.importFrom (.scope ⟨1⟩) [.rebind (.of .u8) (.qualified .u8 "first")]],
      .importFrom (.scope ⟨2⟩) []]

theorem reachable_forwarding : forwarding.Reachable :=
  ⟨0, .head (.start _ _) (leads_declareEach _ _ fun _ =>
    ⟨fun _ => ⟨trivial, trivial⟩, fun _ => ⟨nofun, trivial⟩, nofun, trivial⟩)⟩

end Host

namespace Assembly

/-- The assembly that this host is about to build. -/
def forwarding : Assembly := Host.forwarding.assembly.getD (.new 0 (.named ""))

theorem scopes_forwarding : forwarding.scopes =
    [⟨"outer", none, [⟨1⟩, ⟨2⟩], [], [⟨⟨.scope ⟨2⟩, []⟩, none⟩], []⟩,
      ⟨"outer/source", some .root, [], [⟨0⟩], [], []⟩,
      ⟨"outer/relay", some .root, [], [],
        [⟨⟨.scope ⟨1⟩, [.rebind (.of .u8) (.qualified .u8 "first")]⟩, some "relay"⟩], []⟩] := rfl

/-- The number comes to the root scope by two imports. -/
theorem forwards_forwarding : Relation.ReflTransGen (Forwards forwarding.scopes)
    (⟨1⟩, .of .u8) (.root, .qualified .u8 "first") := by
  have relayed : Forwards forwarding.scopes (⟨1⟩, .of .u8) (⟨2⟩, .qualified .u8 "first") :=
    .mk (by rw [scopes_forwarding]; rfl) List.mem_cons_self rfl (by decide +kernel)
  have rooted : Forwards forwarding.scopes (⟨2⟩, .qualified .u8 "first")
      (.root, .qualified .u8 "first") :=
    .mk (by rw [scopes_forwarding]; rfl) List.mem_cons_self rfl (by decide +kernel)
  exact .tail (.single relayed) rooted

end Assembly

theorem Host.imports_exact_sample :
    (.qualified .u8 "first", .entry ⟨0⟩) ∈ Assembly.forwarding.populatedDraft.row .root ∧
      (Assembly.forwarding.populatedDraft.arrivals .root).map (fun arrival => arrival.2.key) =
        [.qualified .u8 "first"] := by
  have current : forwarding.assembly = some Assembly.forwarding := rfl
  have contained := (reachable_forwarding.sound.wellFormed _ current).contained
  have circleless : importCycles Assembly.forwarding.scopes = [] := by decide +kernel
  obtain ⟨-, chains, -⟩ := reachable_forwarding.imports_exact current fun index =>
    not_transGen_of_acc ((importCycles_eq_nil contained).mp circleless index)
  refine ⟨(chains _ _ Assembly.forwards_forwarding).2 (by decide +kernel) _ ?_, by decide +kernel⟩
  have row : Assembly.forwarding.populatedDraft.row ⟨1⟩ = [(.of .u8, .entry ⟨0⟩)] := rfl
  exact row ▸ List.mem_cons_self

end Wiring
