import Wiring.Proofs.Offers
import Wiring.Stock

/-!
Duplicate providers are exact. A key is listed when some scope was offered two entries under it, and
then every entry that such a scope was offered under the key is listed once, the first one before
the others.
-/

namespace Wiring

/-- The key of a change is listed, and no key is listed twice. -/
theorem Grouped.keys_update {α : Type} (change : List α → List α) (key : Key)
    (groups : Grouped α) : (update change key groups).map Prod.fst =
      if key ∈ groups.map Prod.fst then groups.map Prod.fst else groups.map Prod.fst ++ [key] := by
  induction groups with
  | nil => rfl
  | cons group rest ih =>
    unfold update
    by_cases here : group.1 = key
    · simp [here]
    · rw [if_neg here, List.map_cons, ih, List.map_cons]
      by_cases later : key ∈ rest.map Prod.fst
      · rw [if_pos later, if_pos (List.mem_cons_of_mem _ later)]
      · have absent : key ∉ group.1 :: rest.map Prod.fst := by
          simp only [List.mem_cons, not_or]
          exact ⟨Ne.symm here, later⟩
        rw [if_neg later, if_neg absent, List.cons_append]

theorem map_id_joinNew (items : List EntryDescriptor) (item : EntryDescriptor) :
    (joinNew (fun old new => old.id == new.id) items item).map EntryDescriptor.id =
      joinNew (fun old new => old == new) (items.map EntryDescriptor.id) item.id := by
  unfold joinNew
  rw [List.any_map]
  split <;> rename_i known <;> simp [Function.comp_def, known]

namespace Draft

variable {draft : Draft} {scopes : List Scope} {error : DuplicateProvider}

theorem mem_keys_recordDuplicate (draft : Draft) (scopes : List Scope) (error : DuplicateProvider)
    (key : Key) :
    key ∈ (draft.recordDuplicate scopes error).diagnostics.duplicateProviders.map Prod.fst ↔
      key ∈ draft.diagnostics.duplicateProviders.map Prod.fst ∨ error.key = key := by
  change key ∈ (Grouped.update _ _ _).map Prod.fst ↔ _
  rw [Grouped.keys_update]
  split
  · rename_i listed
    exact ⟨.inl, fun either => either.elim id fun same => same ▸ listed⟩
  · simp [eq_comm]

theorem nodup_keys_recordDuplicate
    (distinct : (draft.diagnostics.duplicateProviders.map Prod.fst).Nodup) :
    ((draft.recordDuplicate scopes error).diagnostics.duplicateProviders.map Prod.fst).Nodup := by
  change ((Grouped.update _ _ _).map Prod.fst).Nodup
  rw [Grouped.keys_update]
  split
  · exact distinct
  · rename_i absent
    exact List.nodup_append'.mpr ⟨distinct, List.nodup_singleton _, by simpa using absent⟩

end Draft

section Competing

variable {offers : Option ScopeId → List EntryId} {contested : Prop} {ids : List EntryId}
  {receiver : Option ScopeId} {holder id : EntryId} {others : List EntryId}

/-- What is listed under a key, when each receiver was offered its entries under it: all entries of
the receivers that were offered several, each once and those of one receiver in order. -/
structure Lists (offers : Option ScopeId → List EntryId) (contested : Prop) (ids : List EntryId) :
    Prop where
  contested : contested ↔ ∃ receiver, 2 ≤ (offers receiver).length
  once : ids.Nodup
  members : ∀ id, id ∈ ids ↔
    ∃ receiver, 2 ≤ (offers receiver).length ∧ id ∈ offers receiver
  inOrder : ∀ receiver, 2 ≤ (offers receiver).length → (offers receiver).Sublist ids

theorem lists_nil (none_offered : ∀ receiver, offers receiver = []) : Lists offers False [] where
  contested := by simp [none_offered]
  once := .nil
  members id := by simp [none_offered]
  inOrder receiver several := by simp [none_offered] at several

/-- A first offer is no competition. -/
theorem Lists.offer (lists : Lists offers contested ids) (free : offers receiver = []) :
    Lists (Function.update offers receiver [id]) contested ids := by
  have several (other : Option ScopeId) :
      2 ≤ (Function.update offers receiver [id] other).length ↔ 2 ≤ (offers other).length := by
    by_cases same : other = receiver
    · subst same
      simp [free]
    · rw [Function.update_of_ne same]
  have kept {other : Option ScopeId} (many : 2 ≤ (offers other).length) :
      Function.update offers receiver [id] other = offers other := by
    apply Function.update_of_ne
    rintro rfl
    rw [free] at many
    exact absurd many (by decide)
  refine ⟨?_, lists.once, fun other => ?_, fun other many => ?_⟩
  · rw [lists.contested]
    exact exists_congr fun other => (several other).symm
  · rw [lists.members]
    refine exists_congr fun target => ?_
    rw [several]
    exact and_congr_right fun many => by rw [kept many]
  · rw [several] at many
    rw [kept many]
    exact lists.inOrder other many

/-- A later offer competes with the one that is held, and both are listed. -/
theorem Lists.compete (lists : Lists offers contested ids)
    (held : offers receiver = holder :: others) (fresh : ∀ target, id ∉ offers target) :
    Lists (Function.update offers receiver (offers receiver ++ [id])) True
      (joinNew (fun old new => old == new)
        (joinNew (fun old new => old == new) ids holder) id) := by
  have new : id ∉ joinNew (fun old new => old == new) ids holder := by
    intro member
    rcases mem_joinNew_iff.mp member with listed | rfl
    · obtain ⟨target, -, among⟩ := (lists.members id).mp listed
      exact fresh target among
    · exact fresh receiver (by rw [held]; exact List.mem_cons_self)
  have own : Function.update offers receiver (offers receiver ++ [id]) receiver =
      offers receiver ++ [id] := Function.update_self _ _ _
  have several :
      2 ≤ (Function.update offers receiver (offers receiver ++ [id]) receiver).length := by
    rw [own]
    simp [held]
  have kept {target : Option ScopeId} (apart : target ≠ receiver) :
      Function.update offers receiver (offers receiver ++ [id]) target = offers target :=
    Function.update_of_ne apart _ _
  -- a receiver with one offer so far had none of its entries listed
  have joined : (offers receiver).Sublist (joinNew (fun old new => old == new) ids holder) := by
    cases others with
    | nil =>
      rw [held]
      exact List.singleton_sublist.mpr (mem_joinNew_iff.mpr (.inr rfl))
    | cons second rest => exact (lists.inOrder receiver (by simp [held])).trans sublist_joinNew
  rw [joinNew_of_notMem new]
  refine ⟨iff_of_true trivial ⟨receiver, several⟩, ?_, fun other => ?_, fun target many => ?_⟩
  · exact List.nodup_append'.mpr
      ⟨nodup_joinNew lists.once, List.nodup_singleton _, by simpa using new⟩
  · rw [List.mem_append, List.mem_singleton]
    constructor
    · rintro (listed | rfl)
      · rcases mem_joinNew_iff.mp listed with before | rfl
        · obtain ⟨target, many, among⟩ := (lists.members other).mp before
          by_cases same : target = receiver
          · subst same
            exact ⟨target, several, by rw [own]; exact List.mem_append_left _ among⟩
          · exact ⟨target, (kept same).symm ▸ many, (kept same).symm ▸ among⟩
        · exact ⟨receiver, several, by rw [own, held]; simp⟩
      · exact ⟨receiver, several, by rw [own]; simp⟩
    · rintro ⟨target, many, among⟩
      by_cases same : target = receiver
      · subst same
        rw [own, List.mem_append, List.mem_singleton] at among
        exact among.imp_left fun old => joined.subset old
      · rw [kept same] at many among
        exact .inl (mem_joinNew_iff.mpr (.inl ((lists.members other).mpr ⟨target, many, among⟩)))
  · by_cases same : target = receiver
    · subst same
      rw [own]
      exact joined.append_right [id]
    · rw [kept same] at many ⊢
      exact ((lists.inOrder target many).trans sublist_joinNew).trans (List.sublist_append_left _ _)

end Competing

/-- The entries that are listed under a key. -/
def rivals (groups : Grouped EntryDescriptor) (key : Key) : List EntryId :=
  (groups.get key).map EntryDescriptor.id

section Log

variable {log : List Filing} {receiver other : Option ScopeId} {key named : Key} {id : EntryId}

theorem offersUnder_append : offersUnder (log ++ [(receiver, key, id)]) named other =
    offersUnder log named other ++ if receiver = other ∧ key = named then [id] else [] := by
  unfold offersUnder
  rw [List.filter_append, List.map_append]
  by_cases same : receiver = other ∧ key = named <;> simp [same]

theorem offersUnder_append_self : offersUnder (log ++ [(receiver, key, id)]) key =
    Function.update (offersUnder log key) receiver (offersUnder log key receiver ++ [id]) := by
  funext target
  rw [offersUnder_append]
  by_cases same : receiver = target
  · subst same
    simp
  · rw [if_neg fun both => same both.1, List.append_nil, Function.update_of_ne (Ne.symm same)]

theorem offersUnder_append_of_ne (different : key ≠ named) :
    offersUnder (log ++ [(receiver, key, id)]) named = offersUnder log named := by
  funext target
  rw [offersUnder_append, if_neg fun both => different both.2, List.append_nil]

theorem head?_offersUnder_append :
    (offersUnder (log ++ [(receiver, key, id)]) named other).head? =
      (offersUnder log named other).head?.or
        (if receiver = other ∧ key = named then some id else none) := by
  rw [offersUnder_append, List.head?_append]
  split <;> rfl

theorem mem_of_mem_offersUnder (member : id ∈ offersUnder log key receiver) :
    (receiver, key, id) ∈ log := by
  obtain ⟨filing, listed, rfl⟩ := List.mem_map.mp member
  obtain ⟨known, same⟩ := List.mem_filter.mp listed
  obtain ⟨rfl, rfl⟩ := decide_eq_true_eq.mp same
  exact known

end Log

/-- The descriptor says of an entry of the key what it says itself, with the name of its scope. -/
def EntryDescriptor.Describes (scopes : List Scope) (entries : List Entry) (key : Key)
    (descriptor : EntryDescriptor) : Prop :=
  ∃ entry scope, entries[descriptor.id.index]? = some entry ∧ entry.key = key ∧
    scopes[entry.scope.index]? = some scope ∧ descriptor = .of descriptor.id entry scope.name

theorem describes_describe {scopes : List Scope} {draft : Draft} {id : EntryId} {entry : Entry}
    {scope : Scope} (found : draft.entries[id.index]? = some entry)
    (here : scopes[entry.scope.index]? = some scope) :
    (draft.describe scopes id).Describes scopes draft.entries entry.key := by
  refine ⟨entry, scope, ?_, rfl, here, ?_⟩ <;> rw [Draft.describe_id]
  · exact found
  · unfold Draft.describe
    simp [found, here]

/-- A draft after offers: the first entry that a receiver was offered under a key is registered,
and the competitions are listed. -/
structure Tells (scopes : List Scope) (log : List Filing) (draft : Draft) : Prop where
  registries : draft.registries.length = scopes.length
  kept : ∀ scope : ScopeId, scope.index < scopes.length → ∀ key,
    (draft.registry scope).get? key = (offersUnder log key (some scope)).head?
  shown : ∀ key, draft.exports.get? key = (offersUnder log key none).head?
  single : ∀ key, (offersUnder log key none).length ≤ 1
  named : ∀ scope key id, (some scope, key, id) ∈ log → ∃ entry data,
    draft.entries[id.index]? = some entry ∧ entry.key = key ∧
      scopes[entry.scope.index]? = some data
  distinct : (draft.diagnostics.duplicateProviders.map Prod.fst).Nodup
  lists : ∀ key, Lists (offersUnder log key)
    (key ∈ draft.diagnostics.duplicateProviders.map Prod.fst)
    (rivals draft.diagnostics.duplicateProviders key)
  described : ∀ key, ∀ descriptor ∈ draft.diagnostics.duplicateProviders.get key,
    descriptor.Describes scopes draft.entries key

namespace Tells

variable {scopes : List Scope} {log : List Filing} {draft after : Draft} {id : EntryId}
  {entry : Entry}

theorem push (tells : Tells scopes log draft) (entry : Entry) :
    Tells scopes log (draft.push entry).2 := by
  have stays {id : EntryId} {known : Entry} (found : draft.entries[id.index]? = some known) :
      (draft.push entry).2.entries[id.index]? = some known :=
    getElem?_of_grown (List.prefix_append _ _) found
  exact { tells with
    named := fun scope key id member => by
      obtain ⟨known, data, found, rest⟩ := tells.named scope key id member
      exact ⟨known, data, stays found, rest⟩
    described := fun key descriptor member => by
      obtain ⟨known, data, found, rest⟩ := tells.described key descriptor member
      exact ⟨known, data, stays found, rest⟩ }

theorem leave (tells : Tells scopes log draft) (leaves : draft.Leaves after) :
    Tells scopes log after where
  registries := by rw [leaves.registries]; exact tells.registries
  kept scope inside key := by
    unfold Draft.registry
    rw [leaves.registries]
    exact tells.kept scope inside key
  shown key := by rw [leaves.exports]; exact tells.shown key
  single := tells.single
  named := by rw [leaves.entries]; exact tells.named
  distinct := by rw [leaves.duplicateProviders]; exact tells.distinct
  lists key := by rw [leaves.duplicateProviders]; exact tells.lists key
  described := by rw [leaves.duplicateProviders, leaves.entries]; exact tells.described

theorem shown_append (tells : Tells scopes log draft) (scope : ScopeId) (key other : Key) :
    draft.exports.get? other =
      (offersUnder (log ++ [(some scope, key, id)]) other none).head? := by
  rw [head?_offersUnder_append, if_neg (by simp), Option.or_none]
  exact tells.shown other

theorem single_append (tells : Tells scopes log draft) (scope : ScopeId) (key other : Key) :
    (offersUnder (log ++ [(some scope, key, id)]) other none).length ≤ 1 := by
  rw [offersUnder_append, if_neg (by simp), List.append_nil]
  exact tells.single other

/-- An entry is offered to a receiver that holds nothing under its key. -/
theorem lists_free (tells : Tells scopes log draft) {receiver : Option ScopeId} {key : Key}
    (free : (offersUnder log key receiver).head? = none) (other : Key) :
    Lists (offersUnder (log ++ [(receiver, key, id)]) other)
      (other ∈ draft.diagnostics.duplicateProviders.map Prod.fst)
      (rivals draft.diagnostics.duplicateProviders other) := by
  by_cases same : key = other
  · subst same
    have nothing := List.head?_eq_none_iff.mp free
    rw [offersUnder_append_self, nothing]
    exact (tells.lists key).offer nothing
  · rw [offersUnder_append_of_ne same]
    exact tells.lists other

theorem named_append (tells : Tells scopes log draft) {receiver : Option ScopeId} {key : Key}
    {id : EntryId} (here : ∀ scope, receiver = some scope → ∃ entry data,
      draft.entries[id.index]? = some entry ∧ entry.key = key ∧
        scopes[entry.scope.index]? = some data) (scope : ScopeId) (other : Key) (known : EntryId)
    (member : (some scope, other, known) ∈ log ++ [(receiver, key, id)]) :
    ∃ entry data, draft.entries[known.index]? = some entry ∧ entry.key = other ∧
      scopes[entry.scope.index]? = some data := by
  rcases List.mem_append.mp member with old | new
  · exact tells.named scope other known old
  · obtain ⟨receives, rfl, rfl⟩ : some scope = receiver ∧ other = key ∧ known = id := by
      simpa using new
    exact here scope receives.symm

theorem publish (tells : Tells scopes log draft) (free : draft.exports.get? entry.key = none) :
    Tells scopes (log ++ [(none, entry.key, id)]) (draft.publish scopes entry.key id) := by
  have grown : draft.publish scopes entry.key id =
      { draft with exports := draft.exports.append entry.key id } := by
    unfold Draft.publish Registry.put
    rw [free]
  have unheld : (offersUnder log entry.key none).head? = none := tells.shown entry.key ▸ free
  rw [grown]
  refine ⟨tells.registries, fun scope inside key => ?_, fun key => ?_, fun key => ?_,
    tells.named_append (fun _ same => nomatch same), tells.distinct, tells.lists_free unheld,
    tells.described⟩
  · rw [head?_offersUnder_append, if_neg (by simp), Option.or_none]
    exact tells.kept scope inside key
  · rw [head?_offersUnder_append, Registry.get?_append, tells.shown key]
    simp
  · rw [offersUnder_append]
    split
    · rename_i same
      rw [← same.2, List.head?_eq_none_iff.mp unheld]
      exact Nat.le_refl 1
    · rw [List.append_nil]
      exact tells.single key

/-- An entry is offered to a receiver that holds another one under its key. -/
theorem lists_taken (tells : Tells scopes log draft) {receiver : Option ScopeId} {key : Key}
    {existing : EntryId} {others : List EntryId} (fresh : ∀ filing ∈ log, filing.2.2 ≠ id)
    (held : offersUnder log key receiver = existing :: others) (other : Key) :
    let groups := (draft.recordDuplicate scopes ⟨key, existing, id⟩).diagnostics.duplicateProviders
    Lists (offersUnder (log ++ [(receiver, key, id)]) other) (other ∈ groups.map Prod.fst)
      (rivals groups other) := by
  have get := draft.get_recordDuplicate scopes ⟨key, existing, id⟩ other
  have listed := draft.mem_keys_recordDuplicate scopes ⟨key, existing, id⟩ other
  dsimp only at get listed ⊢
  rw [listed]
  unfold rivals
  rw [get]
  by_cases same : key = other
  · subst same
    rw [if_pos rfl, List.foldl_cons, List.foldl_cons, List.foldl_nil, map_id_joinNew,
      map_id_joinNew, Draft.describe_id, Draft.describe_id, offersUnder_append_self,
      eq_true (Or.inr rfl)]
    exact (tells.lists key).compete held fun target member =>
      fresh _ (mem_of_mem_offersUnder member) rfl
  · rw [if_neg same, offersUnder_append_of_ne same, or_iff_left same]
    exact tells.lists other

theorem compete (tells : Tells scopes log draft) (found : draft.entries[id.index]? = some entry)
    {data : Scope} (here : scopes[entry.scope.index]? = some data)
    (fresh : ∀ filing ∈ log, filing.2.2 ≠ id) {existing : EntryId} {others : List EntryId}
    (held : offersUnder log entry.key (some entry.scope) = existing :: others) :
    Tells scopes (log ++ [(some entry.scope, entry.key, id)])
      (draft.recordDuplicate scopes ⟨entry.key, existing, id⟩) := by
  refine ⟨tells.registries, fun scope within key => ?_, tells.shown_append _ _,
    tells.single_append _ _, tells.named_append fun _ _ => ⟨entry, data, found, rfl, here⟩,
    Draft.nodup_keys_recordDuplicate tells.distinct, tells.lists_taken fresh held,
    fun key descriptor member => ?_⟩
  · rw [head?_offersUnder_append, ← tells.kept scope within key]
    by_cases same : entry.scope = scope ∧ entry.key = key
    · obtain ⟨rfl, rfl⟩ := same
      have first : (draft.registry entry.scope).get? entry.key = some existing := by
        rw [tells.kept entry.scope within entry.key, held]
        rfl
      rw [first]
      exact first
    · rw [if_neg (by simpa using same), Option.or_none]
      rfl
  · rw [Draft.get_recordDuplicate] at member
    split at member
    · rename_i same
      obtain rfl : entry.key = key := same
      rw [List.foldl_cons, List.foldl_cons, List.foldl_nil] at member
      rcases mem_joinNew member with either | rfl
      · rcases mem_joinNew either with old | rfl
        · exact tells.described entry.key descriptor old
        · have first : existing ∈ offersUnder log entry.key (some entry.scope) := by simp [held]
          obtain ⟨other, home, place, key, above⟩ :=
            tells.named _ _ _ (mem_of_mem_offersUnder first)
          exact key ▸ describes_describe place above
      · exact describes_describe found here
    · exact tells.described key descriptor member

theorem register (tells : Tells scopes log draft) (found : draft.entries[id.index]? = some entry)
    (inside : entry.scope.index < scopes.length) (fresh : ∀ filing ∈ log, filing.2.2 ≠ id) :
    Tells scopes (log ++ [(some entry.scope, entry.key, id)])
      (draft.register scopes entry.scope entry.key id) := by
  have here := List.getElem?_eq_getElem inside
  unfold Draft.register Registry.put
  cases holds : (draft.registry entry.scope).get? entry.key with
  | none =>
    have free := tells.kept entry.scope inside entry.key ▸ holds
    refine ⟨by simpa using tells.registries, fun scope within key => ?_, tells.shown_append _ _,
      tells.single_append _ _, tells.named_append fun _ _ => ⟨entry, _, found, rfl, here⟩,
      tells.distinct, tells.lists_free free, tells.described⟩
    rw [head?_offersUnder_append, ← tells.kept scope within key, Draft.registry_set]
    by_cases same : entry.scope = scope
    · subst same
      rw [if_pos ⟨rfl, tells.registries ▸ inside⟩, Registry.get?_append]
      simp
    · have apart : ¬ entry.scope.index = scope.index := fun equal =>
        same (congrArg ScopeId.mk equal)
      simp [same, apart]
  | some existing =>
    obtain ⟨others, held⟩ : ∃ others,
        offersUnder log entry.key (some entry.scope) = existing :: others :=
      List.head?_eq_some_iff.mp (tells.kept entry.scope inside entry.key ▸ holds)
    exact tells.compete found here fresh held

theorem start (scopes : List Scope) (entries : List Entry) :
    Tells scopes [] (Draft.start scopes entries) where
  registries := by simp [Draft.start]
  kept scope inside key := by
    unfold Draft.registry
    cases found : (Draft.start scopes entries).registries[scope.index]? with
    | none => rfl
    | some registry =>
      obtain ⟨pair, -, rfl⟩ := List.mem_map.mp (List.mem_of_getElem? found)
      rfl
  shown _ := rfl
  single _ := Nat.zero_le _
  named _ _ _ member := absurd member List.not_mem_nil
  distinct := .nil
  lists key := by
    have unlisted : ¬ key ∈ (Draft.start scopes entries).diagnostics.duplicateProviders.map
        Prod.fst := List.not_mem_nil
    rw [eq_false unlisted]
    exact lists_nil fun _ => rfl
  described _ _ member := absurd member List.not_mem_nil

end Tells

/-- What offers leave is told by them, when no entry is offered twice. -/
theorem Draft.Offers.tells {scopes : List Scope} {log : List Filing} {before after : Draft}
    (offers : Draft.Offers scopes before log after) (start : Tells scopes [] before)
    (once : (log.map fun filing => filing.2.2).Nodup) : Tells scopes log after := by
  have earlier {log : List Filing} {filing : Filing}
      (once : ((log ++ [filing]).map fun filing => filing.2.2).Nodup) :
      (log.map fun filing => filing.2.2).Nodup ∧ ∀ known ∈ log, known.2.2 ≠ filing.2.2 := by
    rw [List.map_append] at once
    obtain ⟨first, -, apart⟩ := List.nodup_append'.mp once
    exact ⟨first, fun known member same =>
      apart (List.mem_map_of_mem member) (by simp [same])⟩
  induction offers with
  | refl => exact start
  | register _ found inside ih => exact (ih (earlier once).1).register found inside (earlier once).2
  | publish _ _ free ih => exact (ih (earlier once).1).publish free
  | push _ entry ih => exact (ih once).push entry
  | leave _ leaves ih => exact (ih once).leave leaves

namespace Assembly

variable {offered : Pool → Prop} {assembly : Assembly}

/-- The entries that a scope is offered under a key, in the order of the offers: those declared in
it, those it imports and those that scopes below it export. -/
def offersTo (assembly : Assembly) (scope : ScopeId) (key : Key) : List EntryId :=
  ((numbered assembly.survey.entries 0).filter fun item =>
    assembly.receiverOf item = some scope ∧ item.2.key = key).map Prod.fst

/-- Where shadowing is allowed, no competition is recorded after the last offer. -/
theorem survey_duplicateProviders (allowed : assembly.config.allowShadowing = true) :
    assembly.survey.diagnostics.duplicateProviders =
      assembly.exportedDraft.diagnostics.duplicateProviders := by
  have recorded (cycles : List (List Key)) (diagnostics : Diagnostics) :
      (cycles.foldl Diagnostics.recordDependencyCycle diagnostics).duplicateProviders =
        diagnostics.duplicateProviders := by
    induction cycles generalizing diagnostics with
    | nil => rfl
    | cons cycle rest ih => exact ih (diagnostics.recordDependencyCycle cycle)
  have final : assembly.finalDraft = assembly.linkedDraft := by
    unfold finalDraft
    rw [allowed]
    rfl
  change assembly.finalDraft.diagnostics.duplicateProviders = _
  rw [final]
  exact (recorded _ _).trans (Draft.leaves_link assembly.scopes _).duplicateProviders

end Assembly

namespace Host

variable {host : Host} {assembly : Assembly}

/-- Duplicate providers are exact. A resolution offers declared and imported entries, and then those
that are exported; a scope keeps the first entry that it is offered under a key. Where shadowing is
allowed, the keys that are listed are those under which a scope was offered several entries, each
once; under a key every entry that such a scope was offered is listed once, those of one scope in
the order of the offers, and each is described as it is. -/
theorem Reachable.duplicates_exact (reachable : host.Reachable)
    (current : host.assembly = some assembly) (allowed : assembly.config.allowShadowing = true) :
    (∃ filling exporting,
      Draft.Offers assembly.scopes assembly.orderedDraft filling assembly.populatedDraft ∧
      Draft.Offers assembly.scopes assembly.populatedDraft exporting assembly.exportedDraft ∧
      ∀ scope key, offersUnder (filling ++ exporting) key (some scope) =
        assembly.offersTo scope key) ∧
    (∀ index registry, assembly.survey.registries[index]? = some registry →
      ∀ key, registry.get? key = (assembly.offersTo ⟨index⟩ key).head?) ∧
    let duplicates := assembly.survey.diagnostics.duplicateProviders
    (duplicates.map Prod.fst).Nodup ∧ ∀ key,
      (key ∈ duplicates.map Prod.fst ↔ ∃ scope, 2 ≤ (assembly.offersTo scope key).length) ∧
      (rivals duplicates key).Nodup ∧
      (∀ id, id ∈ rivals duplicates key ↔
        ∃ scope, 2 ≤ (assembly.offersTo scope key).length ∧ id ∈ assembly.offersTo scope key) ∧
      (∀ scope, 2 ≤ (assembly.offersTo scope key).length →
        (assembly.offersTo scope key).Sublist (rivals duplicates key)) ∧
      ∀ descriptor ∈ duplicates.get key,
        descriptor.Describes assembly.scopes assembly.survey.entries key := by
  have wellFormed := reachable.sound.wellFormed assembly current
  obtain ⟨filling, log, filled, course⟩ := (reachable.ordered current).exists_course wellFormed
  obtain ⟨exporting, rfl, exported⟩ := course.offers
  have under (receiver : Option ScopeId) (key : Key) :=
    course.offersUnder_eq (pairwise_numbered _ _) receiver key
  have offers (scope : ScopeId) (key : Key) :
      offersUnder (filling ++ exporting) key (some scope) = assembly.offersTo scope key := by
    rw [under, Assembly.offersTo, Assembly.survey_entries]
  have once : ((filling ++ exporting).map fun filing => filing.2.2).Nodup := by
    refine (course.listed.map _).nodup_iff.mpr ?_
    rw [List.map_map]
    exact nodup_numbered _ _
  have tells : Tells assembly.scopes (filling ++ exporting) assembly.exportedDraft :=
    (filled.trans exported).tells
      ((Tells.start assembly.scopes assembly.entries).leave assembly.leaves_orderedDraft) once
  have several (key : Key) (property : Option ScopeId → Prop) :
      (∃ receiver, 2 ≤ (offersUnder (filling ++ exporting) key receiver).length ∧
          property receiver) ↔
        ∃ scope, 2 ≤ (assembly.offersTo scope key).length ∧ property (some scope) := by
    constructor
    · rintro ⟨_ | scope, many, holds⟩
      · exact absurd (many.trans (tells.single key)) (by decide)
      · exact ⟨scope, offers scope key ▸ many, holds⟩
    · rintro ⟨scope, many, holds⟩
      exact ⟨some scope, (offers scope key).symm ▸ many, holds⟩
  refine ⟨⟨filling, exporting, filled, exported, offers⟩, fun index registry held key => ?_, ?_⟩
  · rw [Assembly.survey_registries] at held
    have inside := (List.getElem?_eq_some_iff.mp held).1
    have kept := tells.kept ⟨index⟩ (tells.registries ▸ inside) key
    rwa [Draft.registry, held, Option.getD_some, offers] at kept
  · dsimp only
    rw [Assembly.survey_duplicateProviders allowed]
    refine ⟨tells.distinct, fun key => ?_⟩
    have lists := tells.lists key
    refine ⟨?_, lists.once, fun id => ?_, fun scope many => ?_, ?_⟩
    · have contested := several key fun _ => True
      simp only [and_true] at contested
      exact lists.contested.trans contested
    · rw [lists.members, several]
      simp only [offers]
    · rw [← offers] at many ⊢
      exact lists.inOrder _ many
    · rw [Assembly.survey_entries]
      exact tells.described key

/-- A host that is about to build three numbers under one key in its root scope, and two more in a
scope below it. -/
def crowded : Host :=
  (Host.new.start (.named "outer")).declareEach
    [.provide (.given (.ofParts .u8 7 "") none) [], .provide (.given (.ofParts .u8 8 "") none) [],
      .provide (.given (.ofParts .u8 9 "") none) [],
      .link "inner" ⟨"inner", .nothing⟩ fun _ =>
        [.provide (.given (.ofParts .u8 1 "") none) [],
          .provide (.given (.ofParts .u8 2 "") none) []]]

theorem reachable_crowded : crowded.Reachable :=
  ⟨0, .head (.start _ _) (leads_declareEach _ _ fun _ =>
    ⟨trivial, trivial, trivial, fun _ => ⟨trivial, trivial, trivial⟩, trivial⟩)⟩

end Host

/-- The assembly that this host is about to build. -/
def Assembly.crowded : Assembly := Host.crowded.assembly.get (by decide +kernel)

theorem Assembly.offersTo_crowded :
    crowded.offersTo .root (.of .u8) = [⟨0⟩, ⟨1⟩, ⟨2⟩] ∧
      crowded.offersTo ⟨1⟩ (.of .u8) = [⟨3⟩, ⟨4⟩] := by
  decide +kernel

theorem Host.duplicates_exact_sample :
    let listed := rivals Assembly.crowded.survey.diagnostics.duplicateProviders (.of .u8)
    listed.Nodup ∧ [⟨0⟩, ⟨1⟩, ⟨2⟩].Sublist listed ∧ [⟨3⟩, ⟨4⟩].Sublist listed := by
  have current : crowded.assembly = some Assembly.crowded := (Option.some_get _).symm
  obtain ⟨-, -, -, exact⟩ := reachable_crowded.duplicates_exact current (by decide +kernel)
  obtain ⟨-, once, -, inOrder, -⟩ := exact (.of .u8)
  obtain ⟨outer, inner⟩ := Assembly.offersTo_crowded
  have several := inOrder .root
  have several' := inOrder ⟨1⟩
  rw [outer] at several
  rw [inner] at several'
  exact ⟨once, several (by decide), several' (by decide)⟩

end Wiring
