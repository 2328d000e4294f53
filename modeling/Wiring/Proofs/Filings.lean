import Wiring.Proofs.Imports
import Wiring.Proofs.Turns

/-!
A resolution as a run of small changes. To fill a scope or to export from it is to offer a declared
entry to its scope, to add a delegate and offer it where it belongs, to make a claim, and to record
problems and events. Of each of these changes it is said once what it does to the registrations:
unless a problem is recorded, each entry that is offered is registered once.
-/

namespace Wiring

/-- A registration: the scope that holds it, or none when it is public, the key, and the entry. -/
abbrev Filing : Type := Option ScopeId × Key × EntryId

/-- The registrations of a registry. -/
def Registry.filings (registry : Registry) (receiver : Option ScopeId) : List Filing :=
  registry.registrations.map (Prod.mk receiver)

/-- All registrations, those of the scopes and then the public ones. -/
def filings (registries : List Registry) (exports : Registry) : List Filing :=
  registries.flatMap (fun registry => registry.filings (some registry.scope)) ++
    exports.filings none

/-- An entry is filed under its own key, where the receiver of its scope says. -/
def filed (receiver : ScopeId → Option ScopeId) (item : EntryId × Entry) : Filing :=
  (receiver item.2.scope, item.2.key, item.1)

theorem Registry.filings_append (registry : Registry) (receiver : Option ScopeId) (key : Key)
    (id : EntryId) :
    (registry.append key id).filings receiver =
      registry.filings receiver ++ [(receiver, key, id)] := by
  simp [Registry.filings, Registry.append]

/-- A registration more in one of the registries is one registration more in all. -/
theorem perm_flatMap_set {α β : Type} {items : List α} {index : Nat} {old changed : α}
    (list : α → List β) {more : List β} (here : items[index]? = some old)
    (longer : list changed = list old ++ more) :
    ((items.set index changed).flatMap list).Perm (items.flatMap list ++ more) := by
  induction items generalizing index with
  | nil => cases here
  | cons first rest ih =>
    cases index with
    | zero =>
      obtain rfl := Option.some.inj here
      rw [List.set_cons_zero, List.flatMap_cons, longer, List.flatMap_cons, List.append_assoc,
        List.append_assoc]
      exact List.perm_append_comm.append_left _
    | succ index =>
      rw [List.set_cons_succ, List.flatMap_cons, List.flatMap_cons, List.append_assoc]
      exact (ih here).append_left _

namespace Draft

/-- All registrations of a draft. -/
def filings (draft : Draft) : List Filing := Wiring.filings draft.registries draft.exports

/-- One change of a draft on the way through the resolution of the assembly, with the declared
entries that it offers to their scopes. An entry that is added is offered where the receiver of its
scope says: to the scope, or to the public. -/
inductive Changes (assembly : Assembly) (receiver : ScopeId → Option ScopeId) :
    Draft → List (EntryId × Entry) → Draft → Prop
  | enroll {draft : Draft} {item : EntryId × Entry}
      (declared : assembly.entries[item.1.index]? = some item.2) :
      Changes assembly receiver draft [item]
        (draft.register assembly.scopes item.2.scope item.2.key item.1)
  | add {draft : Draft} {entry : Entry} (home : receiver entry.scope = some entry.scope)
      (inside : entry.scope.index < assembly.scopes.length) (delegates : entry.Delegates assembly) :
      Changes assembly receiver draft []
        ((draft.push entry).2.register assembly.scopes entry.scope entry.key (draft.push entry).1)
  | publish {draft : Draft} {entry : Entry} (outside : receiver entry.scope = none)
      (root : entry.scope = .root) (delegates : entry.Delegates assembly) :
      Changes assembly receiver draft []
        ((draft.push entry).2.publish assembly.scopes entry.key (draft.push entry).1)
  | claim {draft : Draft} (claim : Claim) {id : EntryId} (descriptor : ExportDescriptor)
      (inside : id.index < draft.entries.length) :
      Changes assembly receiver draft [] (draft.claim claim id descriptor)
  | record {draft : Draft} {diagnostics : Diagnostics} (events : List Event)
      (kept : diagnostics.isEmpty = true → draft.diagnostics.isEmpty = true) :
      Changes assembly receiver draft []
        { draft with diagnostics := diagnostics, events := events }

/-- Changes one after the other, with all declared entries that they offer. -/
inductive Runs (assembly : Assembly) (receiver : ScopeId → Option ScopeId) :
    Draft → List (EntryId × Entry) → Draft → Prop
  | refl (draft : Draft) : Runs assembly receiver draft [] draft
  | tail {first middle last : Draft} {enrolled more : List (EntryId × Entry)}
      (runs : Runs assembly receiver first enrolled middle)
      (changes : Changes assembly receiver middle more last) :
      Runs assembly receiver first (enrolled ++ more) last

variable {offered : Pool → Prop} {assembly : Assembly} {receiver : ScopeId → Option ScopeId}
  {draft before after : Draft} {enrolled : List (EntryId × Entry)}

theorem Changes.runs (changes : Changes assembly receiver before enrolled after) :
    Runs assembly receiver before enrolled after :=
  (Runs.refl before).tail changes

theorem Runs.trans {last : Draft} {more : List (EntryId × Entry)}
    (runs : Runs assembly receiver before enrolled after)
    (onward : Runs assembly receiver after more last) :
    Runs assembly receiver before (enrolled ++ more) last := by
  induction onward with
  | refl => rwa [List.append_nil]
  | tail _ changes ih =>
    rw [← List.append_assoc]
    exact ih.tail changes

theorem Runs.reported (runs : Runs assembly receiver before enrolled after) (event : Event) :
    Runs assembly receiver before enrolled (after.report event) := by
  rw [← List.append_nil enrolled]
  exact runs.tail (.record (after.events ++ [event]) id)

/-- A change keeps what holds of every draft of the assembly. -/
theorem Changes.evolves (changes : Changes assembly receiver before enrolled after) :
    Evolves assembly before after := by
  cases changes with
  | enroll declared =>
    intro sound
    exact evolves_register assembly.scopes _ ⟨_, sound.declared declared, rfl⟩ sound
  | add _ _ delegates => exact evolves_push_register assembly.scopes _ before _ delegates
  | publish _ _ delegates =>
    exact (evolves_push before _ delegates).trans
      (evolves_publish assembly.scopes ⟨_, getElem?_push before _, rfl⟩)
  | claim claim descriptor inside => exact evolves_of_agrees ⟨rfl, rfl, rfl⟩ id
  | record events kept => exact evolves_of_agrees ⟨rfl, rfl, rfl⟩ kept

theorem Runs.evolves (runs : Runs assembly receiver before enrolled after) :
    Evolves assembly before after := by
  induction runs with
  | refl => exact .refl _
  | tail _ changes ih => exact ih.trans changes.evolves

/-- Runs for a list of items in turn. -/
theorem Sound.runs_foldl {α : Type} {step : Draft → α → Draft}
    {named : α → List (EntryId × Entry)} (sound : draft.Sound assembly) {items : List α}
    (each : ∀ item ∈ items, ∀ middle : Draft, middle.Sound assembly → draft.Grows middle →
      Runs assembly receiver middle (named item) (step middle item)) :
    Runs assembly receiver draft (items.flatMap named) (items.foldl step draft) := by
  have onward (middle : Draft) (fine : middle.Sound assembly) (grows : draft.Grows middle)
      (rest : List α) (among : ∀ item ∈ rest, item ∈ items) :
      Runs assembly receiver middle (rest.flatMap named) (rest.foldl step middle) := by
    induction rest generalizing middle with
    | nil => exact .refl middle
    | cons item rest ih =>
      have first := each item (among item List.mem_cons_self) middle fine grows
      obtain ⟨next, further⟩ := first.evolves fine
      exact first.trans (ih _ next (grows.trans further) fun other member =>
        among other (List.mem_cons_of_mem _ member))
  exact onward draft sound (.refl draft) items fun _ => id

/-- Runs in turn that offer no declared entry. -/
theorem Sound.runs_foldl_nil {α : Type} {step : Draft → α → Draft} (sound : draft.Sound assembly)
    {items : List α} (each : ∀ item ∈ items, ∀ middle : Draft, middle.Sound assembly →
      draft.Grows middle → Runs assembly receiver middle [] (step middle item)) :
    Runs assembly receiver draft [] (items.foldl step draft) := by
  have runs : Runs assembly receiver draft (items.flatMap fun _ => []) (items.foldl step draft) :=
    sound.runs_foldl each
  rwa [List.flatMap_eq_nil_iff.mpr fun _ _ => rfl] at runs

theorem Sound.runs_enrollEach (sound : draft.Sound assembly) (scope : ScopeId) :
    Runs assembly receiver draft (assembly.providers scope)
      (((assembly.providers scope).map Prod.fst).foldl (enroll assembly.scopes scope) draft) := by
  rw [List.foldl_map]
  have enrolled : Runs assembly receiver draft
      ((assembly.providers scope).flatMap fun item => [item])
      ((assembly.providers scope).foldl
        (fun draft item => draft.enroll assembly.scopes scope item.1) draft) := by
    refine sound.runs_foldl fun item member middle fine _ => ?_
    obtain ⟨found, home⟩ := Assembly.mem_providers.mp member
    have same : middle.enroll assembly.scopes scope item.1 =
        middle.register assembly.scopes item.2.scope item.2.key item.1 := by
      unfold enroll
      rw [fine.declared found, home]
    rw [same]
    exact (Changes.enroll found).runs
  rwa [List.flatMap_singleton'] at enrolled

theorem runs_offer {scope : ScopeId} (home : receiver scope = some scope)
    (inside : scope.index < assembly.scopes.length) {imported : Import}
    (checked : ImportSpec.checkAll imported.spec.ops = .ok ()) (draft : Draft)
    {candidate : Key × Delegate} (provides : candidate.2.Provides assembly candidate.1.type) :
    Runs assembly receiver draft [] (draft.offer assembly.scopes scope imported candidate) := by
  unfold offer
  cases kept : imported.spec.apply candidate.1 with
  | none => exact .refl draft
  | some key =>
    have type : key.type = candidate.1.type := ImportSpec.applyAll_type checked kept
    have delegates : (Entry.ofDelegate key candidate.2 scope
        (imported.label assembly.scopes)).Delegates assembly := by
      refine ⟨rfl, rfl, candidate.2, rfl, ?_⟩
      change candidate.2.Provides assembly key.type
      rw [type]
      exact provides
    exact (Changes.add home inside delegates).runs

/-- To fill a scope is to offer its declared entries, and to add the delegates of its imports. -/
theorem Sound.runs_populate (sound : draft.Sound assembly)
    (wellFormed : assembly.WellFormed offered) (ordered : assembly.Ordered) {scope : ScopeId}
    (home : receiver scope = some scope) (inside : scope.index < assembly.scopes.length) :
    Runs assembly receiver draft (assembly.providers scope)
      (draft.populate assembly.scopes scope) := by
  have here := List.getElem?_eq_getElem inside
  unfold populate
  simp only [here]
  rw [ordered.declared_eq wellFormed here]
  have enrolled : Runs assembly receiver draft _ _ := sound.runs_enrollEach scope
  have bring (imported : Import) (member : imported ∈ assembly.scopes[scope.index].imports)
      (middle : Draft) (fine : middle.Sound assembly) :
      Runs assembly receiver middle [] (middle.bringIn assembly.scopes scope imported) := by
    have proper := (wellFormed.scopes scope.index _ here).imports imported member
    exact fine.runs_foldl_nil fun candidate among draft _ _ =>
      runs_offer home inside proper.checked draft
        (fine.candidate_provides wellFormed (List.mem_of_getElem? here) member among)
  have filled := enrolled.trans ((enrolled.evolves sound).1.runs_foldl_nil
    fun imported member middle fine _ => bring imported member middle fine)
  rw [List.append_nil] at filled
  exact filled.reported _

theorem runs_select (data : Scope) (scope : ScopeId) (selection : List Candidate × Draft)
    (spec : ExportSpec) :
    Runs assembly receiver selection.2 [] (select data scope selection spec).2 := by
  unfold select
  cases spec with
  | all => exact .refl _
  | keyed key exportAs =>
    cases found : (selection.2.registry scope).get? key with
    | some id =>
      simp only [found]
      exact .refl _
    | none =>
      simp only [found]
      refine (Changes.record selection.2.events fun accepted => ?_).runs
      rw [Diagnostics.recordUnresolvedExport_isEmpty] at accepted
      cases accepted

theorem runs_selectEach (data : Scope) (scope : ScopeId) (specs : List ExportSpec)
    (selection : List Candidate × Draft) :
    Runs assembly receiver selection.2 [] (specs.foldl (select data scope) selection).2 :=
  List.foldlRecOn specs (select data scope)
    (motive := fun later => Runs assembly receiver selection.2 [] later.2) (.refl _)
    fun middle runs spec _ => runs.trans (runs_select data scope middle spec)

/-- A candidate is delivered to the parent, and to the public when there is none. -/
theorem Sound.runs_deliver (sound : draft.Sound assembly) (wellFormed : assembly.WellFormed offered)
    {scope : ScopeId} {data : Scope} (here : assembly.scopes[scope.index]? = some data)
    (receives : receiver (data.parent.getD scope) = data.parent) {candidate : Candidate}
    (fits : candidate.Fits draft.entries) :
    Runs assembly receiver draft [] (draft.deliver assembly.scopes data scope candidate) := by
  obtain ⟨entry, found, type⟩ := fits
  have provides := sound.delegateTo_provides wellFormed found
  rw [type] at provides
  have delegates (home : ScopeId) : (Entry.ofDelegate candidate.exportAs
      (delegateTo draft.entries candidate.entry) home
      ("export from `" ++ data.name ++ "`")).Delegates assembly := ⟨rfl, rfl, _, rfl, provides⟩
  unfold deliver
  cases above : data.parent with
  | none =>
    rw [above, Option.getD_none] at receives
    have root : scope = .root := congrArg ScopeId.mk (wellFormed.tree.root _ data here above)
    exact (Changes.publish receives root (delegates scope)).runs
  | some parent =>
    rw [above, Option.getD_some] at receives
    have earlier := wellFormed.parents _ data here parent above
    exact (Changes.add receives (earlier.trans (List.getElem?_eq_some_iff.mp here).1)
      (delegates parent)).runs

theorem Sound.runs_send (sound : draft.Sound assembly) (wellFormed : assembly.WellFormed offered)
    {scope : ScopeId} {data : Scope} (here : assembly.scopes[scope.index]? = some data)
    (receives : receiver (data.parent.getD scope) = data.parent) {candidate : Candidate}
    (fits : candidate.Fits draft.entries) :
    Runs assembly receiver draft [] (draft.send assembly.scopes data scope candidate) := by
  unfold send
  split
  · split
    · exact .refl draft
    · refine (Changes.record draft.events fun accepted => ?_).runs
      rw [Diagnostics.recordDuplicateExport_isEmpty] at accepted
      cases accepted
  · obtain ⟨entry, found, type⟩ := fits
    have inside := (List.getElem?_eq_some_iff.mp found).1
    have claims (claim : Claim) (descriptor : ExportDescriptor) :
        Runs assembly receiver draft [] (draft.claim claim candidate.entry descriptor) :=
      (Changes.claim claim descriptor inside).runs
    dsimp only
    split
    · exact claims _ _
    · refine (claims _ _).trans (Sound.runs_deliver ?_ wellFormed here receives ?_)
      · exact ((claims _ _).evolves sound).1
      · exact ⟨entry, found, type⟩

/-- To export from a scope is to make claims and to add delegates for its parent, or for the public
when it has none. -/
theorem Sound.runs_exportFrom (sound : draft.Sound assembly)
    (wellFormed : assembly.WellFormed offered) {scope : ScopeId} {data : Scope}
    (here : assembly.scopes[scope.index]? = some data)
    (receives : receiver (data.parent.getD scope) = data.parent) :
    Runs assembly receiver draft [] (draft.exportFrom assembly.scopes scope) := by
  unfold exportFrom
  simp only [here]
  have selected : Runs assembly receiver draft [] _ :=
    runs_selectEach data scope data.exports ([], draft)
  rcases taken : data.exports.foldl (select data scope) ([], draft) with ⟨candidates, middle⟩
  rw [taken] at selected
  obtain ⟨fine, -, fits⟩ := sound.selectEach data scope
    (wellFormed.scopes scope.index data here).exports taken
  exact selected.trans (fine.runs_foldl_nil fun candidate member later sound grows =>
    sound.runs_send wellFormed here receives ((fits candidate member).mono grows.entries))

end Draft

end Wiring
