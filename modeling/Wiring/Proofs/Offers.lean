import Wiring.Proofs.Registrations

/-!
A resolution as the offers that it makes. Every entry is offered once: a declared entry to its
scope, an imported one to the scope that imports it, an exported one to the parent, or to the
public when the root exports it. What one receiver is offered comes in the order of the entries.
-/

namespace Wiring

namespace Draft

/-- The two drafts agree, and no competition and no circle of entries was recorded in between. -/
structure Leaves (before after : Draft) : Prop extends Agrees before after where
  duplicateProviders :
    after.diagnostics.duplicateProviders = before.diagnostics.duplicateProviders
  dependencyCycles : after.diagnostics.dependencyCycles = before.diagnostics.dependencyCycles

theorem Leaves.refl (draft : Draft) : draft.Leaves draft := ⟨⟨rfl, rfl, rfl⟩, rfl, rfl⟩

theorem Leaves.trans {first second third : Draft} (leaves : first.Leaves second)
    (onward : second.Leaves third) : first.Leaves third :=
  ⟨leaves.toAgrees.trans onward.toAgrees,
    onward.duplicateProviders.trans leaves.duplicateProviders,
    onward.dependencyCycles.trans leaves.dependencyCycles⟩

/-- The search for providers leaves what was offered. -/
theorem leaves_link (scopes : List Scope) (draft : Draft) : draft.Leaves (draft.link scopes) :=
  List.foldlRecOn draft.needs.flatten (settleNeed scopes) (motive := draft.Leaves) (.refl draft)
    fun middle leaves need _ => leaves.trans <| by
      unfold settleNeed
      cases need.provider <;> exact ⟨⟨rfl, rfl, rfl⟩, rfl, rfl⟩

/-- Operations of a resolution one after the other, with the offers that they make. An entry is
offered to its scope, or to the public when its key is not public yet. -/
inductive Offers (scopes : List Scope) (before : Draft) : List Filing → Draft → Prop
  | refl : Offers scopes before [] before
  | register {log : List Filing} {draft : Draft} {id : EntryId} {entry : Entry}
      (offers : Offers scopes before log draft) (found : draft.entries[id.index]? = some entry)
      (inside : entry.scope.index < scopes.length) :
      Offers scopes before (log ++ [(some entry.scope, entry.key, id)])
        (draft.register scopes entry.scope entry.key id)
  | publish {log : List Filing} {draft : Draft} {id : EntryId} {entry : Entry}
      (offers : Offers scopes before log draft) (found : draft.entries[id.index]? = some entry)
      (free : draft.exports.get? entry.key = none) :
      Offers scopes before (log ++ [(none, entry.key, id)]) (draft.publish scopes entry.key id)
  | push {log : List Filing} {draft : Draft} (offers : Offers scopes before log draft)
      (entry : Entry) : Offers scopes before log (draft.push entry).2
  | leave {log : List Filing} {draft after : Draft} (offers : Offers scopes before log draft)
      (leaves : draft.Leaves after) : Offers scopes before log after

variable {scopes : List Scope} {draft before after : Draft} {log : List Filing}
  {receiver : Option ScopeId} {made : List Entry}

theorem Offers.trans {last : Draft} {more : List Filing} (offers : Offers scopes before log after)
    (onward : Offers scopes after more last) : Offers scopes before (log ++ more) last := by
  induction onward with
  | refl => rwa [List.append_nil]
  | register _ found inside ih =>
    rw [← List.append_assoc]
    exact ih.register found inside
  | publish _ found free ih =>
    rw [← List.append_assoc]
    exact ih.publish found free
  | push _ entry ih => exact ih.push entry
  | leave _ leaves ih => exact ih.leave leaves

theorem dependencyCycles_register (draft : Draft) (scopes : List Scope) (scope : ScopeId)
    (key : Key) (id : EntryId) :
    (draft.register scopes scope key id).diagnostics.dependencyCycles =
      draft.diagnostics.dependencyCycles := by
  unfold register
  split <;> rfl

theorem dependencyCycles_publish (draft : Draft) (scopes : List Scope) (key : Key)
    (id : EntryId) : (draft.publish scopes key id).diagnostics.dependencyCycles =
      draft.diagnostics.dependencyCycles := by
  unfold publish
  split <;> rfl

/-- No circle of entries is recorded before all offers are made. -/
theorem Offers.dependencyCycles (offers : Offers scopes before log after) :
    after.diagnostics.dependencyCycles = before.diagnostics.dependencyCycles := by
  induction offers with
  | refl => rfl
  | register _ _ _ ih => exact (dependencyCycles_register _ _ _ _ _).trans ih
  | publish _ _ _ ih => exact (dependencyCycles_publish _ _ _ _).trans ih
  | push _ _ ih => exact ih
  | leave _ leaves ih => exact leaves.dependencyCycles.trans ih

/-- A key is public only when it is claimed. -/
def Claimed (draft : Draft) : Prop :=
  ∀ key, draft.claimant? (none, key) = none → draft.exports.get? key = none

theorem Leaves.claimed (leaves : before.Leaves after) (claimed : before.Claimed)
    (same : after.claimed = before.claimed) : after.Claimed := by
  intro key unclaimed
  unfold claimant? at unclaimed
  rw [same] at unclaimed
  rw [leaves.exports]
  exact claimed key unclaimed

/-- From the first draft to the second one the entries were made, and each was offered to the
receiver, in order. -/
structure Adds (scopes : List Scope) (receiver : Option ScopeId) (before : Draft)
    (made : List Entry) (after : Draft) : Prop where
  offers : Offers scopes before
    ((numbered made before.entries.length).map (filed fun _ => receiver)) after
  entries : after.entries = before.entries ++ made
  home : ∀ scope, receiver = some scope → ∀ entry ∈ made, entry.scope = scope
  claimed : after.Claimed

theorem Leaves.adds (leaves : before.Leaves after) (claimed : after.Claimed) :
    Adds scopes receiver before [] after where
  offers := Offers.refl.leave leaves
  entries := by rw [leaves.entries, List.append_nil]
  home _ _ _ member := absurd member List.not_mem_nil
  claimed := claimed

theorem Adds.refl (claimed : draft.Claimed) : Adds scopes receiver draft [] draft :=
  (Leaves.refl draft).adds claimed

theorem Adds.trans {last : Draft} {more : List Entry}
    (adds : Adds scopes receiver before made after)
    (onward : Adds scopes receiver after more last) :
    Adds scopes receiver before (made ++ more) last where
  offers := by
    rw [numbered_append, List.map_append, ← List.length_append, ← adds.entries]
    exact adds.offers.trans onward.offers
  entries := by rw [onward.entries, adds.entries, List.append_assoc]
  home scope same entry member :=
    (List.mem_append.mp member).elim (adds.home scope same entry) (onward.home scope same entry)
  claimed := onward.claimed

/-- Additions for a list of items in turn. -/
theorem exists_adds_foldl {α : Type} {step : Draft → α → Draft} (items : List α)
    (claimed : draft.Claimed) (each : ∀ item ∈ items, ∀ middle : Draft, middle.Claimed →
      ∃ made, Adds scopes receiver middle made (step middle item)) :
    ∃ made, Adds scopes receiver draft made (items.foldl step draft) :=
  List.foldlRecOn items step
    (motive := fun later => ∃ made, Adds scopes receiver draft made later)
    ⟨[], .refl claimed⟩ fun middle ⟨made, adds⟩ item member => by
      obtain ⟨more, onward⟩ := each item member middle adds.claimed
      exact ⟨made ++ more, adds.trans onward⟩

theorem Claimed.register (claimed : draft.Claimed) (scopes : List Scope) (scope : ScopeId)
    (key : Key) (id : EntryId) : (draft.register scopes scope key id).Claimed := by
  unfold Draft.register
  split <;> exact claimed

theorem adds_register (claimed : draft.Claimed) (entry : Entry)
    (inside : entry.scope.index < scopes.length) :
    Adds scopes (some entry.scope) draft [entry]
      ((draft.push entry).2.register scopes entry.scope entry.key (draft.push entry).1) where
  offers := (Offers.refl.push entry).register (getElem?_push draft entry) inside
  entries := entries_register _ _ _ _ _
  home scope same other member := by
    rw [List.mem_singleton.mp member]
    exact Option.some.inj same
  claimed := by
    have pushed : (draft.push entry).2.Claimed := claimed
    exact pushed.register scopes entry.scope entry.key (draft.push entry).1

theorem adds_publish (claimed : draft.Claimed) (entry : Entry)
    (free : draft.exports.get? entry.key = none)
    (known : draft.claimant? (none, entry.key) ≠ none) :
    Adds scopes none draft [entry]
      ((draft.push entry).2.publish scopes entry.key (draft.push entry).1) where
  offers := (Offers.refl.push entry).publish (getElem?_push draft entry) free
  entries := entries_publish _ _ _ _
  home _ same := nomatch same
  claimed := by
    have taken : (draft.push entry).2.exports.get? entry.key = none := free
    have grown : (draft.push entry).2.publish scopes entry.key (draft.push entry).1 =
        { (draft.push entry).2 with
          exports := draft.exports.append entry.key (draft.push entry).1 } := by
      unfold publish Registry.put
      rw [taken]
      rfl
    rw [grown]
    intro key unclaimed
    have different : entry.key ≠ key := by
      rintro rfl
      exact known unclaimed
    rw [Registry.get?_append, if_neg different, Option.or_none]
    exact claimed key unclaimed

theorem exists_adds_offer {scope : ScopeId} (inside : scope.index < scopes.length)
    (imported : Import) (claimed : draft.Claimed) (candidate : Key × Delegate) :
    ∃ made, Adds scopes (some scope) draft made
      (draft.offer scopes scope imported candidate) := by
  unfold offer
  cases imported.spec.apply candidate.1 with
  | none => exact ⟨[], .refl claimed⟩
  | some key => exact ⟨_, adds_register claimed (.ofDelegate key _ scope _) inside⟩

theorem exists_adds_bringIn {scope : ScopeId} (inside : scope.index < scopes.length)
    (imported : Import) (claimed : draft.Claimed) :
    ∃ made, Adds scopes (some scope) draft made (draft.bringIn scopes scope imported) :=
  exists_adds_foldl _ claimed fun candidate _ _ still =>
    exists_adds_offer inside imported still candidate

theorem exists_adds_deliver {data : Scope} (scope : ScopeId) (candidate : Candidate)
    (inside : ∀ parent, data.parent = some parent → parent.index < scopes.length)
    (claimed : draft.Claimed) (free : data.parent = none →
      draft.exports.get? candidate.exportAs = none ∧
        draft.claimant? (none, candidate.exportAs) ≠ none) :
    ∃ made, Adds scopes data.parent draft made (draft.deliver scopes data scope candidate) := by
  unfold deliver
  cases above : data.parent with
  | none =>
    obtain ⟨unheld, known⟩ := free above
    exact ⟨_, adds_publish claimed (.ofDelegate candidate.exportAs _ scope _) unheld known⟩
  | some parent =>
    exact ⟨_, adds_register claimed (.ofDelegate candidate.exportAs _ parent _)
      (inside parent above)⟩

theorem exists_adds_send {data : Scope} (scope : ScopeId) (candidate : Candidate)
    (inside : ∀ parent, data.parent = some parent → parent.index < scopes.length)
    (claimed : draft.Claimed) :
    ∃ made, Adds scopes data.parent draft made (draft.send scopes data scope candidate) := by
  unfold send
  cases known : draft.claimant? (data.parent, candidate.exportAs) with
  | some claim =>
    dsimp only
    split
    · exact ⟨[], .refl claimed⟩
    · exact ⟨[], Leaves.adds ⟨⟨rfl, rfl, rfl⟩, rfl, rfl⟩ claimed⟩
  | none =>
    dsimp only
    generalize ExportDescriptor.mk _ _ _ _ = descriptor
    have leaves : draft.Leaves
        (draft.claim (data.parent, candidate.exportAs) candidate.entry descriptor) :=
      ⟨⟨rfl, rfl, rfl⟩, rfl, rfl⟩
    have still : (draft.claim (data.parent, candidate.exportAs) candidate.entry
        descriptor).Claimed := by
      intro key unclaimed
      rw [claimant?_claim, Option.or_eq_none_iff] at unclaimed
      exact claimed key unclaimed.1
    have first : Adds scopes data.parent draft [] _ := leaves.adds still
    split
    · exact ⟨[], first⟩
    · obtain ⟨made, onward⟩ := exists_adds_deliver scope candidate inside still fun above => by
        rw [above] at known ⊢
        refine ⟨claimed _ known, ?_⟩
        rw [claimant?_claim, known]
        simp
      exact ⟨[] ++ made, first.trans onward⟩

theorem leaves_select (data : Scope) (scope : ScopeId) (selection : List Candidate × Draft)
    (spec : ExportSpec) :
    selection.2.Leaves (select data scope selection spec).2 ∧
      (select data scope selection spec).2.claimed = selection.2.claimed := by
  unfold select
  cases spec with
  | all => exact ⟨⟨⟨rfl, rfl, rfl⟩, rfl, rfl⟩, rfl⟩
  | keyed key exportAs =>
    cases found : (selection.2.registry scope).get? key <;>
      simp only [found, and_true] <;>
      exact ⟨⟨rfl, rfl, rfl⟩, rfl, rfl⟩

theorem adds_selectEach (data : Scope) (scope : ScopeId) (specs : List ExportSpec)
    (selection : List Candidate × Draft) (claimed : selection.2.Claimed) :
    Adds scopes receiver selection.2 [] (specs.foldl (select data scope) selection).2 :=
  List.foldlRecOn specs (select data scope)
    (motive := fun later => Adds scopes receiver selection.2 [] later.2) (.refl claimed)
    fun middle adds spec _ => by
      obtain ⟨leaves, same⟩ := leaves_select data scope middle spec
      exact adds.trans (leaves.adds (leaves.claimed adds.claimed same))

/-- The exports of a scope are offered to its parent, or to the public when it has none. -/
theorem exists_adds_exportFrom {scope : ScopeId} {data : Scope}
    (here : scopes[scope.index]? = some data)
    (inside : ∀ parent, data.parent = some parent → parent.index < scopes.length)
    (claimed : draft.Claimed) :
    ∃ made, Adds scopes data.parent draft made (draft.exportFrom scopes scope) := by
  unfold exportFrom
  simp only [here]
  have selected : Adds scopes data.parent draft [] _ :=
    adds_selectEach data scope data.exports ([], draft) claimed
  generalize data.exports.foldl (select data scope) ([], draft) = selection at selected ⊢
  obtain ⟨made, sent⟩ := exists_adds_foldl selection.1 selected.claimed
    fun candidate _ middle still => exists_adds_send scope candidate inside still
  exact ⟨[] ++ made, selected.trans sent⟩

end Draft

/-- What a receiver was offered under a key, in order. -/
def offersUnder (log : List Filing) (key : Key) (receiver : Option ScopeId) : List EntryId :=
  (log.filter fun filing => filing.1 = receiver ∧ filing.2.1 = key).map fun filing => filing.2.2

/-- What one receiver is offered comes in the order of the entries. -/
def InOrder (log : List Filing) : Prop :=
  log.Pairwise fun earlier later => earlier.1 = later.1 → earlier.2.2.index < later.2.2.index

theorem inOrder_map_filed {items : List (EntryId × Entry)} (receiver : ScopeId → Option ScopeId)
    (sorted : items.Pairwise fun earlier later => earlier.1.index < later.1.index) :
    InOrder (items.map (filed receiver)) := by
  refine List.pairwise_map.mpr (sorted.imp ?_)
  intro _ _ before _
  exact before

/-- The numbers of entries from a position on. -/
theorem bounds_of_mem_numbered {entries : List Entry} {first : Nat} {item : EntryId × Entry}
    (member : item ∈ numbered entries first) :
    first ≤ item.1.index ∧ item.1.index < first + entries.length ∧ item.2 ∈ entries := by
  obtain ⟨pair, listed, rfl⟩ := List.mem_map.mp member
  obtain ⟨above, below, found⟩ := List.mem_zipIdx listed
  exact ⟨above, below, found ▸ List.getElem_mem _⟩

/-- A resolution on its way, with all that it offered before a given draft and since then: each of
the items once, under its own key and to its receiver. -/
structure Course (assembly : Assembly) (start : Draft) (past : List Filing)
    (receiver : EntryId × Entry → Option ScopeId) (items : List (EntryId × Entry))
    (log : List Filing) (draft : Draft) : Prop where
  offers : ∃ recent, log = past ++ recent ∧ Draft.Offers assembly.scopes start recent draft
  claimed : draft.Claimed
  listed : log.Perm (items.map fun item => (receiver item, item.2.key, item.1))
  sorted : InOrder log
  inside : ∀ filing ∈ log, filing.2.2.index < draft.entries.length

namespace Course

variable {offered : Pool → Prop} {assembly : Assembly} {start draft after : Draft}
  {past log more : List Filing} {receiver receiver' : EntryId × Entry → Option ScopeId}
  {items items' : List (EntryId × Entry)} {made : List Entry}

/-- What was offered until now is past. -/
theorem restart (course : Course assembly start past receiver items log draft) :
    Course assembly draft log receiver items log draft :=
  { course with offers := ⟨[], (List.append_nil _).symm, .refl⟩ }

theorem onward (course : Course assembly start past receiver items log draft)
    (offers : Draft.Offers assembly.scopes draft more after) :
    ∃ recent, log ++ more = past ++ recent ∧ Draft.Offers assembly.scopes start recent after := by
  obtain ⟨recent, rfl, before⟩ := course.offers
  exact ⟨recent ++ more, List.append_assoc _ _ _, before.trans offers⟩

theorem perm (course : Course assembly start past receiver items log draft)
    (same : items.Perm items') : Course assembly start past receiver items' log draft :=
  { course with listed := course.listed.trans (same.map _) }

theorem congr (course : Course assembly start past receiver items log draft)
    (same : ∀ item ∈ items, receiver item = receiver' item) :
    Course assembly start past receiver' items log draft :=
  { course with
    listed := course.listed.trans (.of_eq (List.map_congr_left fun item member => by
      rw [same item member])) }

theorem reported (course : Course assembly start past receiver items log draft) (event : Event) :
    Course assembly start past receiver items log (draft.report event) :=
  { course with
    offers := by
      obtain ⟨recent, whole, before⟩ := course.offers
      exact ⟨recent, whole, before.leave ⟨⟨rfl, rfl, rfl⟩, rfl, rfl⟩⟩ }

/-- New entries have numbers above all others. -/
theorem adds (course : Course assembly start past receiver items log draft)
    {target : Option ScopeId} (adds : Draft.Adds assembly.scopes target draft made after)
    (same : ∀ item ∈ numbered made draft.entries.length, receiver item = target) :
    ∃ log, Course assembly start past receiver (items ++ numbered made draft.entries.length) log
      after := by
  have fresh {filing : Filing}
      (member : filing ∈ (numbered made draft.entries.length).map (filed fun _ => target)) :
      draft.entries.length ≤ filing.2.2.index ∧
        filing.2.2.index < draft.entries.length + made.length := by
    obtain ⟨item, among, rfl⟩ := List.mem_map.mp member
    exact ⟨(bounds_of_mem_numbered among).1, (bounds_of_mem_numbered among).2.1⟩
  refine ⟨_, course.onward adds.offers, adds.claimed, ?_, ?_, fun filing member => ?_⟩
  · rw [List.map_append]
    refine course.listed.append (.of_eq (List.map_congr_left fun item member => ?_))
    rw [same item member]
    rfl
  · refine List.pairwise_append.mpr
      ⟨course.sorted, inOrder_map_filed _ (pairwise_numbered _ _), fun old known new member _ => ?_⟩
    exact Nat.lt_of_lt_of_le (course.inside old known) (fresh member).1
  · rw [adds.entries, List.length_append]
    rcases List.mem_append.mp member with old | new
    · exact Nat.lt_add_right _ (course.inside filing old)
    · exact (fresh new).2

/-- Entries that are declared in a scope are offered to it one after the other. -/
theorem offers_enrollEach {scope : ScopeId} (inside : scope.index < assembly.scopes.length)
    (among : items ⊆ assembly.providers scope)
    (declared : draft.entries = assembly.entries ++ made) (claimed : draft.Claimed) :
    let enrolled := (items.map Prod.fst).foldl (Draft.enroll assembly.scopes scope) draft
    Draft.Offers assembly.scopes draft (items.map (filed some)) enrolled ∧
      enrolled.Claimed ∧ enrolled.entries = draft.entries := by
  induction items generalizing draft with
  | nil => exact ⟨.refl, claimed, rfl⟩
  | cons item rest ih =>
    obtain ⟨found, home⟩ := Assembly.mem_providers.mp (among List.mem_cons_self)
    have here : draft.entries[item.1.index]? = some item.2 :=
      getElem?_of_grown (declared ▸ List.prefix_append _ _) found
    have step : draft.enroll assembly.scopes scope item.1 =
        draft.register assembly.scopes item.2.scope item.2.key item.1 := by
      unfold Draft.enroll
      rw [here, home]
    have kept := Draft.entries_register draft assembly.scopes item.2.scope item.2.key item.1
    obtain ⟨offers, last, entries⟩ := ih (fun other member => among (List.mem_cons_of_mem _ member))
      (kept.trans declared) (claimed.register assembly.scopes item.2.scope item.2.key item.1)
    simp only [List.map_cons, List.foldl_cons, step]
    refine ⟨Draft.Offers.trans (.register .refl here (home ▸ inside)) offers, last, ?_⟩
    exact entries.trans kept

/-- Declared entries are offered to a scope that was offered nothing yet. -/
theorem enrollEach {scope : ScopeId} (inside : scope.index < assembly.scopes.length)
    (course : Course assembly start past (fun item => some item.2.scope) items log draft)
    (declared : draft.entries = assembly.entries ++ made)
    (apart : ∀ item ∈ items, item.2.scope ≠ scope) :
    ∃ log, Course assembly start past (fun item => some item.2.scope)
        (items ++ assembly.providers scope) log
        (((assembly.providers scope).map Prod.fst).foldl
          (Draft.enroll assembly.scopes scope) draft) ∧
      (((assembly.providers scope).map Prod.fst).foldl
        (Draft.enroll assembly.scopes scope) draft).entries = draft.entries := by
  obtain ⟨offers, claimed, entries⟩ :=
    offers_enrollEach inside (List.Subset.refl _) declared course.claimed
  refine ⟨_, ⟨course.onward offers, claimed, ?_, ?_, fun filing member => ?_⟩, entries⟩
  · rw [List.map_append]
    exact course.listed.append_right _
  · refine List.pairwise_append.mpr ⟨course.sorted, inOrder_map_filed some ?_, ?_⟩
    · exact (pairwise_numbered _ _).filter _
    · intro old known new member same
      obtain ⟨item, among, rfl⟩ := List.mem_map.mp (course.listed.mem_iff.mp known)
      obtain ⟨other, provides, rfl⟩ := List.mem_map.mp member
      refine absurd (Option.some.inj same) ?_
      rw [(Assembly.mem_providers.mp provides).2]
      exact apart item among
  · rw [entries]
    rcases List.mem_append.mp member with old | new
    · exact course.inside filing old
    · obtain ⟨other, provides, rfl⟩ := List.mem_map.mp new
      rw [declared, List.length_append]
      have found := (Assembly.mem_providers.mp provides).1
      exact Nat.lt_add_right _ (List.getElem?_eq_some_iff.mp found).1

/-- To fill a scope is to offer it its declared entries, and then what it imports. -/
theorem populate (ordered : assembly.Ordered) (wellFormed : assembly.WellFormed offered)
    {scope : ScopeId} (inside : scope.index < assembly.scopes.length)
    (course : Course assembly start past (fun item => some item.2.scope) items log draft)
    (declared : draft.entries = assembly.entries ++ made)
    (apart : ∀ item ∈ items, item.2.scope ≠ scope) :
    ∃ log imported, (∀ entry ∈ imported, entry.scope = scope) ∧
      (draft.populate assembly.scopes scope).entries = draft.entries ++ imported ∧
      Course assembly start past (fun item => some item.2.scope)
        (items ++ assembly.providers scope ++ numbered imported draft.entries.length) log
        (draft.populate assembly.scopes scope) := by
  have here := List.getElem?_eq_getElem inside
  obtain ⟨log, enrolled, kept⟩ := course.enrollEach inside declared apart
  unfold Draft.populate
  simp only [here]
  rw [ordered.declared_eq wellFormed here]
  obtain ⟨imported, brings⟩ := Draft.exists_adds_foldl assembly.scopes[scope.index].imports
    enrolled.claimed fun source _ _ still => Draft.exists_adds_bringIn inside source still
  have home := brings.home scope rfl
  obtain ⟨log, whole⟩ := enrolled.adds brings fun item member => by
    rw [home item.2 (bounds_of_mem_numbered member).2.2]
  rw [kept] at whole
  exact ⟨log, imported, home, brings.entries.trans (by rw [kept]), whole.reported _⟩

/-- To fill scopes that were offered nothing yet is to offer each its declared entries and what it
imports. -/
theorem populateEach (ordered : assembly.Ordered) (wellFormed : assembly.WellFormed offered)
    {order done : List ScopeId} (inside : ∀ scope ∈ order, scope.index < assembly.scopes.length)
    (once : (done ++ order).Nodup) (declared : draft.entries = assembly.entries ++ made)
    (homes : ∀ entry ∈ made, entry.scope ∈ done)
    (course : Course assembly start past (fun item => some item.2.scope)
      (done.flatMap assembly.providers ++ numbered made assembly.entries.length) log draft) :
    ∃ log made,
      (order.foldl (Draft.populate assembly.scopes) draft).entries = assembly.entries ++ made ∧
      Course assembly start past (fun item => some item.2.scope)
        ((done ++ order).flatMap assembly.providers ++ numbered made assembly.entries.length) log
        (order.foldl (Draft.populate assembly.scopes) draft) := by
  induction order generalizing done draft made log with
  | nil => exact ⟨log, made, declared, by rwa [List.append_nil]⟩
  | cons scope rest ih =>
    have fresh : scope ∉ done := fun member =>
      List.disjoint_of_nodup_append once member List.mem_cons_self
    obtain ⟨log, imported, home, entries, filled⟩ :=
      course.populate ordered wellFormed (inside scope List.mem_cons_self) declared
        fun item member => by
          rintro rfl
          rcases List.mem_append.mp member with provides | brought
          · obtain ⟨other, among, listed⟩ := List.mem_flatMap.mp provides
            exact fresh ((Assembly.mem_providers.mp listed).2 ▸ among)
          · exact fresh (homes item.2 (bounds_of_mem_numbered brought).2.2)
    have grown : (draft.populate assembly.scopes scope).entries =
        assembly.entries ++ (made ++ imported) := by
      rw [entries, declared, List.append_assoc]
    have inner (entry : Entry) (member : entry ∈ made ++ imported) :
        entry.scope ∈ done ++ [scope] := by
      rcases List.mem_append.mp member with old | new
      · exact List.mem_append_left _ (homes entry old)
      · exact List.mem_append_right _ (by rw [home entry new]; exact List.mem_singleton_self _)
    have onward : Course assembly start past (fun item => some item.2.scope)
        ((done ++ [scope]).flatMap assembly.providers ++
          numbered (made ++ imported) assembly.entries.length) log
        (draft.populate assembly.scopes scope) := by
      refine filled.perm ?_
      rw [declared, List.length_append, List.flatMap_append, List.flatMap_singleton,
        numbered_append, ← List.append_assoc]
      -- What was made before and what is declared here change places.
      refine .append_right _ ?_
      rw [List.append_assoc, List.append_assoc]
      exact List.perm_append_comm.append_left _
    rw [List.append_cons] at once ⊢
    exact ih (fun other member => inside other (List.mem_cons_of_mem _ member)) once grown inner
      onward

/-- The exports of a scope are offered to its parent, or to the public. -/
theorem exportFrom (wellFormed : assembly.WellFormed offered) {scope : ScopeId} {data : Scope}
    (here : assembly.scopes[scope.index]? = some data)
    (course : Course assembly start past receiver (numbered draft.entries 0) log draft)
    (receives : ∀ item, draft.entries.length ≤ item.1.index →
      (∀ parent, data.parent = some parent → item.2.scope = parent) →
      receiver item = data.parent) :
    ∃ log, Course assembly start past receiver
      (numbered (draft.exportFrom assembly.scopes scope).entries 0) log
      (draft.exportFrom assembly.scopes scope) := by
  have inside (parent : ScopeId) (above : data.parent = some parent) :
      parent.index < assembly.scopes.length :=
    (wellFormed.parents _ data here parent above).trans (List.getElem?_eq_some_iff.mp here).1
  obtain ⟨made, exported⟩ := Draft.exists_adds_exportFrom here inside course.claimed
  obtain ⟨log, whole⟩ := course.adds exported fun item member =>
    receives item (bounds_of_mem_numbered member).1 fun parent above =>
      exported.home parent above item.2 (bounds_of_mem_numbered member).2.2
  refine ⟨log, ?_⟩
  rw [exported.entries, numbered_append, Nat.zero_add]
  exact whole

/-- What a receiver is offered under a key, in order. -/
theorem offersUnder_eq (course : Course assembly start past receiver items log draft)
    (sorted : items.Pairwise fun earlier later => earlier.1.index < later.1.index)
    (target : Option ScopeId) (key : Key) :
    offersUnder log key target =
      (items.filter fun item => receiver item = target ∧ item.2.key = key).map Prod.fst := by
  refine Assembly.eq_of_pairwise_index (List.pairwise_map.mpr ?_)
    (List.pairwise_map.mpr (sorted.filter _)) fun id => ?_
  · refine List.Pairwise.imp_of_mem ?_ (course.sorted.filter _)
    intro earlier later member other before
    have first := (decide_eq_true_eq.mp (List.mem_filter.mp member).2).1
    exact before (first.trans (decide_eq_true_eq.mp (List.mem_filter.mp other).2).1.symm)
  · simp only [offersUnder, List.mem_map, List.mem_filter, course.listed.mem_iff,
      decide_eq_true_eq]
    constructor
    · rintro ⟨filing, ⟨⟨item, member, rfl⟩, same⟩, rfl⟩
      exact ⟨item, ⟨member, same⟩, rfl⟩
    · rintro ⟨item, ⟨member, same⟩, rfl⟩
      exact ⟨_, ⟨⟨item, member, rfl⟩, same⟩, rfl⟩

end Course

namespace Assembly

variable {offered : Pool → Prop} {assembly : Assembly}

/-- Before the first offer no entry is registered and nothing is recorded of entries. -/
theorem leaves_orderedDraft (assembly : Assembly) :
    (Draft.start assembly.scopes assembly.entries).Leaves assembly.orderedDraft := by
  have recorded (cycles : List (List String)) (diagnostics : Diagnostics) :
      (cycles.foldl Diagnostics.recordImportCycle diagnostics).duplicateProviders =
          diagnostics.duplicateProviders ∧
        (cycles.foldl Diagnostics.recordImportCycle diagnostics).dependencyCycles =
          diagnostics.dependencyCycles := by
    induction cycles generalizing diagnostics with
    | nil => exact ⟨rfl, rfl⟩
    | cons cycle rest ih => exact ih (diagnostics.recordImportCycle cycle)
  obtain ⟨providers, circles⟩ := recorded (importCycles assembly.scopes) .empty
  exact ⟨⟨rfl, rfl, rfl⟩, providers, circles⟩

/-- When all scopes are filled, every entry was offered to its scope. -/
theorem Ordered.exists_filling (ordered : assembly.Ordered)
    (wellFormed : assembly.WellFormed offered) :
    ∃ log, Course assembly assembly.orderedDraft [] (fun item => some item.2.scope)
      (numbered assembly.populatedDraft.entries 0) log assembly.populatedDraft := by
  have start : Course assembly assembly.orderedDraft [] (fun item => some item.2.scope)
      ([].flatMap assembly.providers ++ numbered [] assembly.entries.length) []
      assembly.orderedDraft :=
    ⟨⟨[], rfl, .refl⟩, fun _ _ => rfl, .refl _, .nil,
      fun _ member => absurd member List.not_mem_nil⟩
  obtain ⟨log, made, entries, course⟩ := start.populateEach ordered wellFormed
    (fun _ => lt_of_mem_importOrder) (nodup_importOrder assembly.scopes) (List.append_nil _).symm
    (List.forall_mem_nil _)
  have entries : assembly.populatedDraft.entries = assembly.entries ++ made := entries
  refine ⟨log, ?_⟩
  rw [entries, numbered_append, Nat.zero_add]
  refine course.perm (.append_right _ ?_)
  have once : ((importOrder assembly.scopes).map ScopeId.index).Nodup :=
    (nodup_importOrder assembly.scopes).map fun _ _ same => congrArg ScopeId.mk same
  have shares := perm_providers wellFormed once fun index => by
    rw [List.mem_map]
    constructor
    · rintro ⟨scope, member, rfl⟩
      exact lt_of_mem_importOrder member
    · exact fun inside => ⟨⟨index⟩, mem_importOrder inside, rfl⟩
  rwa [List.flatMap_map] at shares

/-- When all scopes but the root have exported, every entry was offered to its scope. -/
theorem Ordered.exists_inner (ordered : assembly.Ordered)
    (wellFormed : assembly.WellFormed offered) :
    ∃ filling log,
      Draft.Offers assembly.scopes assembly.orderedDraft filling assembly.populatedDraft ∧
      Course assembly assembly.populatedDraft filling (fun item => some item.2.scope)
        (numbered assembly.innerDraft.entries 0) log assembly.innerDraft := by
  obtain ⟨filling, filled⟩ := ordered.exists_filling wellFormed
  obtain ⟨_, rfl, offers⟩ := filled.offers
  refine ⟨_, (List.foldlRecOn assembly.turns.dropLast (Draft.exportFrom assembly.scopes)
    (motive := fun draft => ∃ log, Course assembly assembly.populatedDraft _
      (fun item => some item.2.scope) (numbered draft.entries 0) log draft)
    ⟨_, filled.restart⟩ ?_).imp fun log course => ⟨offers, course⟩⟩
  rintro draft ⟨log, course⟩ scope member
  obtain ⟨data, parent, here, above⟩ := ordered.exists_parent wellFormed member
  refine course.exportFrom wellFormed here fun item _ home => ?_
  rw [above, home parent above]

/-- A resolution offers every entry once to its receiver. -/
theorem Ordered.exists_course (ordered : assembly.Ordered)
    (wellFormed : assembly.WellFormed offered) :
    ∃ filling log,
      Draft.Offers assembly.scopes assembly.orderedDraft filling assembly.populatedDraft ∧
      Course assembly assembly.populatedDraft filling assembly.receiverOf
        (numbered assembly.exportedDraft.entries 0) log assembly.exportedDraft := by
  obtain ⟨filling, log, filled, inner⟩ := ordered.exists_inner wellFormed
  obtain ⟨root, here, top⟩ := ordered.exists_root wellFormed
  have known : Course assembly assembly.populatedDraft filling assembly.receiverOf
      (numbered assembly.innerDraft.entries 0) log assembly.innerDraft :=
    inner.congr fun item member => by
      rw [receiverOf, if_pos]
      exact Nat.zero_add assembly.innerDraft.entries.length ▸ (bounds_of_mem_numbered member).2.1
  rw [exportedDraft_eq]
  refine ⟨filling, (known.exportFrom wellFormed here fun item late _ => ?_).imp
    fun log course => ⟨filled, course⟩⟩
  rw [receiverOf, if_neg (Nat.not_lt_of_le late), top]

end Assembly

end Wiring
