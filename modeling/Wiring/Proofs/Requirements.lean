import Wiring.Proofs.Diagnoses
import Wiring.Proofs.Shadowing
import Wiring.Stock

/-!
Requirements. Every dependency of every factory is looked up on the chain from the scope of the
factory to the root, in the registries as imports and exports left them. What is found is linked,
and the rest is recorded, in order, whatever other problems there are.
-/

namespace Wiring

/-- A dependency of a factory among some entries. -/
structure Occurrence where
  consumer : EntryId
  entry : Entry
  key : Key

/-- The dependencies of all factories, in the order of the entries and of their dependencies. -/
def occurrences (entries : List Entry) : List Occurrence :=
  entries.zipIdx.flatMap fun pair =>
    if pair.1.isFactory then pair.1.dependencies.map fun key => ⟨⟨pair.2⟩, pair.1, key⟩ else []

/-- The record of a dependency without a provider. -/
def Occurrence.record (scopes : List Scope) (occurrence : Occurrence) : UnresolvedRequirement where
  key := occurrence.key
  requiredBy := .of occurrence.consumer occurrence.entry
    ((scopes[occurrence.entry.scope.index]?.map Scope.name).getD "")

/-- The entry that a scope registers under a key. -/
def Resolution.registered? (resolution : Resolution) (scope : ScopeId) (key : Key) :
    Option EntryId :=
  resolution.registries[scope.index]?.bind fun registry => registry.get? key

/-- What a scope sees under a key: the nearest registration on the chain to the root, or nothing
where none of these scopes registers the key. -/
def Resolution.Sees (scopes : List Scope) (resolution : Resolution) (scope : ScopeId) (key : Key) :
    Option EntryId → Prop
  | none => ∀ upper, Under scopes upper scope → resolution.registered? upper key = none
  | some id => ∃ upper, Under scopes upper scope ∧ resolution.registered? upper key = some id ∧
      ∀ nearer, Under scopes nearer scope → Above scopes upper nearer →
        resolution.registered? nearer key = none

section Unmet

open Classical

/-- The dependencies of factories under which nothing is seen, in order. -/
noncomputable def Resolution.unmet (scopes : List Scope) (resolution : Resolution) :
    List Occurrence :=
  (occurrences resolution.entries).filter fun occurrence =>
    resolution.Sees scopes occurrence.entry.scope occurrence.key none

end Unmet

section Chain

variable {scopes : List Scope} {resolution : Resolution} {upper scope parent : ScopeId}
  {data : Scope} {key : Key}

theorem under_iff : Under scopes upper scope ↔ upper = scope ∨ Above scopes upper scope := by
  constructor
  · intro under
    cases under with
    | top => exact .inl rfl
    | child here above onward => exact .inr ⟨_, _, here, above, onward⟩
  · rintro (rfl | above)
    · exact .top
    · exact above.under

theorem under_iff_of_parent (here : scopes[scope.index]? = some data)
    (above : data.parent = some parent) :
    Under scopes upper scope ↔ upper = scope ∨ Under scopes upper parent := by
  rw [under_iff]
  refine or_congr_right ⟨?_, fun under => ⟨data, parent, here, above, under⟩⟩
  rintro ⟨other, parent', here', above', under⟩
  obtain rfl := Option.some.inj (here.symm.trans here')
  rwa [Option.some.inj (above.symm.trans above')]

theorem under_iff_of_root (here : scopes[scope.index]? = some data) (root : data.parent = none) :
    Under scopes upper scope ↔ upper = scope := by
  rw [under_iff, or_iff_left]
  rintro ⟨other, parent, here', above, -⟩
  obtain rfl := Option.some.inj (here.symm.trans here')
  cases root.symm.trans above

/-- A scope that does not register a key sees what its parent sees. -/
theorem Resolution.Sees.child {answer : Option EntryId}
    (sees : resolution.Sees scopes parent key answer) (here : scopes[scope.index]? = some data)
    (above : data.parent = some parent) (own : resolution.registered? scope key = none) :
    resolution.Sees scopes scope key answer := by
  cases answer with
  | none =>
    intro upper under
    rcases (under_iff_of_parent here above).mp under with rfl | further
    · exact own
    · exact sees upper further
  | some id =>
    obtain ⟨upper, further, held, first⟩ := sees
    refine ⟨upper, .child here above further, held, fun nearer under between => ?_⟩
    rcases (under_iff_of_parent here above).mp under with rfl | further
    · exact own
    · exact first nearer further between

end Chain

namespace Assembly

variable {offered : Pool → Prop} {assembly : Assembly}

theorem registered?_survey (assembly : Assembly) (scope : ScopeId) (key : Key) :
    assembly.survey.registered? scope key = (assembly.exportedDraft.registry scope).get? key := by
  unfold Resolution.registered? Draft.registry
  rw [survey_registries]
  cases assembly.exportedDraft.registries[scope.index]? <;> rfl

theorem WellFormed.not_above_of_under (wellFormed : assembly.WellFormed offered)
    {upper scope : ScopeId} (under : Under assembly.scopes upper scope) :
    ¬ Above assembly.scopes scope upper := by
  rintro ⟨data, parent, here, above, onward⟩
  have lower := wellFormed.parents upper.index data here parent above
  have first := under.le wellFormed.parents
  have second := onward.le wellFormed.parents
  omega

/-- A lookup along the chain gives what the scope sees. -/
theorem WellFormed.sees_nearest? (wellFormed : assembly.WellFormed offered) {scope : ScopeId}
    {data : Scope} (here : assembly.scopes[scope.index]? = some data) (key : Key) :
    assembly.survey.Sees assembly.scopes scope key
      (assembly.exportedDraft.nearest? scope key) := by
  have sound := exportedDraft_sound wellFormed
  obtain ⟨index⟩ := scope
  induction index using Nat.strongRecOn generalizing data with
  | ind index ih =>
    rw [sound.nearest?_eq wellFormed here, ← registered?_survey]
    cases own : assembly.survey.registered? ⟨index⟩ key with
    | some id =>
      exact ⟨⟨index⟩, .top, own, fun nearer under above =>
        absurd above (wellFormed.not_above_of_under under)⟩
    | none =>
      rw [Option.none_or]
      cases above : data.parent with
      | none =>
        intro upper under
        rwa [(under_iff_of_root here above).mp under]
      | some parent =>
        obtain ⟨other, place, -⟩ := wellFormed.tree.parents index data here parent above
        have sees := ih parent.index (wellFormed.parents index data here parent above) place
        exact sees.child here above own

theorem WellFormed.sees_none_iff (wellFormed : assembly.WellFormed offered) {scope : ScopeId}
    {data : Scope} (here : assembly.scopes[scope.index]? = some data) (key : Key) :
    assembly.survey.Sees assembly.scopes scope key none ↔
      (assembly.exportedDraft.nearest? scope key).isNone = true := by
  have sees := wellFormed.sees_nearest? here key
  constructor
  · intro nowhere
    rw [Option.isNone_iff_eq_none, Option.eq_none_iff_forall_ne_some]
    intro id nearest
    rw [nearest] at sees
    obtain ⟨upper, under, held, -⟩ := sees
    cases (nowhere upper under).symm.trans held
  · intro nowhere
    rwa [Option.isNone_iff_eq_none.mp nowhere] at sees

/-- Only factories have dependencies. -/
theorem WellFormed.dependencies_eq_nil (wellFormed : assembly.WellFormed offered) {index : Nat}
    {entry : Entry} (found : assembly.survey.entries[index]? = some entry)
    (other : entry.isFactory = false) : entry.dependencies = [] := by
  rw [survey_entries] at found
  rcases (exportedDraft_sound wellFormed).entry_cases found with declared | ⟨-, idle, -⟩
  · have proper := wellFormed.entries index entry declared
    unfold Entry.Proper at proper
    cases origin : entry.origin with
    | given handle =>
      rw [origin] at proper
      exact proper.2.2
    | made factory => simp [Entry.isFactory, origin, Origin.kind] at other
    | delegate target => simp [origin] at proper
  · exact idle

/-- The needs of a draft are the dependencies of its factories, each with what is found. -/
theorem needs_eq_occurrences (draft : Draft) : draft.needs.flatten =
    (occurrences draft.entries).map fun occurrence =>
      ⟨occurrence.consumer, occurrence.entry, occurrence.key,
        draft.nearest? occurrence.entry.scope occurrence.key⟩ := by
  unfold occurrences Draft.needs
  rw [List.map_flatMap, ← List.flatMap_def]
  refine List.flatMap_congr fun pair _ => ?_
  unfold Draft.needsOf
  split
  · rw [List.map_map]
    rfl
  · rfl

theorem getElem?_of_mem_occurrences {entries : List Entry} {occurrence : Occurrence}
    (member : occurrence ∈ occurrences entries) :
    entries[occurrence.consumer.index]? = some occurrence.entry ∧
      occurrence.entry.isFactory = true := by
  obtain ⟨⟨entry, index⟩, here, made⟩ := List.mem_flatMap.mp member
  split at made
  · rename_i factory
    obtain ⟨key, -, rfl⟩ := List.mem_map.mp made
    exact ⟨List.mem_zipIdx_iff_getElem?.mp here, factory⟩
  · cases made

/-- What is recorded are those dependencies under which nothing is seen. -/
theorem WellFormed.unresolvedRequirements_eq (wellFormed : assembly.WellFormed offered) :
    assembly.survey.diagnostics.unresolvedRequirements =
      (assembly.survey.unmet assembly.scopes).map (Occurrence.record assembly.scopes) := by
  have known {occurrence : Occurrence} (member : occurrence ∈ occurrences assembly.survey.entries) :
      assembly.exportedDraft.entries[occurrence.consumer.index]? = some occurrence.entry ∧
        ∃ data, assembly.scopes[occurrence.entry.scope.index]? = some data := by
    obtain ⟨found, factory⟩ := getElem?_of_mem_occurrences member
    rw [survey_entries] at found
    have declared := (exportedDraft_sound wellFormed).declared_of_isFactory found factory
    obtain ⟨data, here, -⟩ := wellFormed.placed _ _ declared
    exact ⟨found, data, here⟩
  classical
  rw [survey_unresolvedRequirements, needs_eq_occurrences, List.filter_map, List.map_map,
    ← survey_entries]
  have unseen : (occurrences assembly.survey.entries).filter
      (fun occurrence =>
        (assembly.exportedDraft.nearest? occurrence.entry.scope occurrence.key).isNone) =
      assembly.survey.unmet assembly.scopes := by
    refine List.filter_congr fun occurrence member => ?_
    obtain ⟨-, data, here⟩ := known member
    exact Bool.eq_iff_iff.mpr
      ((wellFormed.sees_none_iff here _).symm.trans decide_eq_true_iff.symm)
  refine (congrArg _ unseen).trans (List.map_congr_left fun occurrence member => ?_)
  obtain ⟨found, -⟩ := known (List.mem_of_mem_filter member)
  simp only [Function.comp_apply, Draft.describe, found, Occurrence.record]

/-- What is linked to an entry is what its scope sees under its dependencies. -/
theorem WellFormed.exists_links (wellFormed : assembly.WellFormed offered) {index : Nat}
    {entry : Entry} (found : assembly.survey.entries[index]? = some entry) :
    ∃ providers, List.Forall₂ (assembly.survey.Sees assembly.scopes entry.scope)
        entry.dependencies providers ∧
      assembly.survey.links[index]? = some (providers.filterMap id) := by
  have linked : assembly.survey.links[index]? =
      some ((assembly.exportedDraft.needsOf ⟨index⟩ entry).filterMap Need.provider) := by
    rw [survey_entries] at found
    change assembly.exportedDraft.links[index]? = _
    simp [Draft.links, Draft.needs, found]
  cases factory : entry.isFactory with
  | false =>
    rw [wellFormed.dependencies_eq_nil found factory]
    exact ⟨[], .nil, by simpa [Draft.needsOf, factory] using linked⟩
  | true =>
    rw [survey_entries] at found
    have declared := (exportedDraft_sound wellFormed).declared_of_isFactory found factory
    obtain ⟨data, here, -⟩ := wellFormed.placed _ _ declared
    refine ⟨entry.dependencies.map (assembly.exportedDraft.nearest? entry.scope), ?_, ?_⟩
    · exact List.forall₂_map_right_iff.mpr (List.forall₂_same.mpr fun key _ =>
        wellFormed.sees_nearest? here key)
    · rw [linked, Draft.needsOf, if_pos factory, List.filterMap_map, List.filterMap_map]
      rfl

/-- Where everything is met, each entry has as many links as dependencies. -/
theorem WellFormed.exists_full_links (wellFormed : assembly.WellFormed offered)
    (accepted : assembly.survey.accepted = true) {index : Nat} {entry : Entry}
    (found : assembly.survey.entries[index]? = some entry) :
    ∃ links, assembly.survey.links[index]? = some links ∧
      links.length = entry.dependencies.length := by
  obtain ⟨providers, sees, linked⟩ := wellFormed.exists_links found
  refine ⟨_, linked, ?_⟩
  cases factory : entry.isFactory with
  | false =>
    rw [wellFormed.dependencies_eq_nil found factory] at sees ⊢
    cases sees
    rfl
  | true =>
    rw [survey_entries] at found
    have met := links_exportedDraft accepted found factory
    have same : assembly.exportedDraft.links.getD index [] = providers.filterMap id := by
      rw [List.getD_eq_getElem?_getD]
      exact congrArg (Option.getD · []) linked
    rw [same] at met
    exact met.length_eq.symm

end Assembly

namespace Host

variable {host : Host} {assembly : Assembly}

/-- Requirements are recorded completely and exactly, whatever other problems there are. All
declared entries are looked at, with delegates added that are no factories. The record holds those
dependencies of factories, in order, that no scope registers on the chain from the factory's scope
to the root, each with its factory; every other one is linked to the nearest registration. Where a
resolution is given, every entry has as many links as dependencies. -/
theorem Reachable.requirements_exact (reachable : host.Reachable)
    (current : host.assembly = some assembly) :
    let resolution := assembly.survey
    (∃ added, resolution.entries = assembly.entries ++ added ∧
        ∀ entry ∈ added, entry.isFactory = false) ∧
      resolution.diagnostics.unresolvedRequirements =
        (resolution.unmet assembly.scopes).map (Occurrence.record assembly.scopes) ∧
      (∀ (index : Nat) (entry : Entry), resolution.entries[index]? = some entry → ∃ providers,
        List.Forall₂ (resolution.Sees assembly.scopes entry.scope) entry.dependencies providers ∧
          resolution.links[index]? = some (providers.filterMap id)) ∧
      ∀ resolved, assembly.resolve = .ok resolved → ∀ (index : Nat) (entry : Entry),
        resolved.entries[index]? = some entry → ∃ links, resolved.links[index]? = some links ∧
          links.length = entry.dependencies.length := by
  intro resolution
  have wellFormed := reachable.sound.wellFormed assembly current
  have sound := Assembly.exportedDraft_sound wellFormed
  refine ⟨?_, wellFormed.unresolvedRequirements_eq,
    fun index entry found => wellFormed.exists_links found,
    fun resolved given index entry found => ?_⟩
  · obtain ⟨added, entries, delegates⟩ := sound.entries
    refine ⟨added, assembly.survey_entries.trans entries, fun entry member => ?_⟩
    obtain ⟨-, -, target, origin, -⟩ := delegates entry member
    simp [Entry.isFactory, origin, Origin.kind]
  · obtain ⟨accepted, rfl⟩ := Assembly.survey_of_resolve given
    exact wellFormed.exists_full_links accepted found

/-- A host that is about to build two sums for one key, and below them a third one. One number is
missing, and one that the second sum and the third one need. -/
def lacking : Host :=
  (Host.new.start (.named "lacking")).declareEach
    [.provide (Signature.adding ⟨.u8, [.u16]⟩) [],
      .provide (Signature.adding ⟨.u8, [.u32, .u16]⟩) [],
      .link "inner" ⟨"inner", .nothing⟩ fun _ =>
        [.provide (Signature.adding ⟨.u64, [.u32, .u8]⟩) []]]

theorem reachable_lacking : lacking.Reachable :=
  ⟨0, .head (.start _ _) (leads_declareEach _ _ fun _ =>
    ⟨trivial, trivial, fun _ => ⟨trivial, trivial⟩, trivial⟩)⟩

end Host

/-- The assembly that this host is about to build. -/
def Assembly.lacking : Assembly := Host.lacking.assembly.get (by decide +kernel)

/-- All that is missing is recorded, also for the sum that lost its key, and the third sum is linked
to the first one. -/
theorem Host.requirements_exact_sample :
    Assembly.lacking.survey.diagnostics.unresolvedRequirements.map
        (fun requirement => (requirement.requiredBy.id, requirement.key)) =
      [(⟨0⟩, .of .u16), (⟨1⟩, .of .u32), (⟨1⟩, .of .u16), (⟨2⟩, .of .u32)] ∧
      Assembly.lacking.survey.links = [[], [], [⟨0⟩]] ∧
      ∃ entry providers, Assembly.lacking.survey.entries[2]? = some entry ∧
        List.Forall₂ (Assembly.lacking.survey.Sees Assembly.lacking.scopes entry.scope)
          entry.dependencies providers ∧ providers.filterMap id = [⟨0⟩] := by
  have current : lacking.assembly = some Assembly.lacking := (Option.some_get _).symm
  obtain ⟨-, -, links, -⟩ := reachable_lacking.requirements_exact current
  have third : (Assembly.lacking.survey.entries[2]?).isSome = true := by decide +kernel
  obtain ⟨entry, found⟩ := Option.isSome_iff_exists.mp third
  obtain ⟨providers, sees, linked⟩ := links 2 entry found
  have all : Assembly.lacking.survey.links = [[], [], [⟨0⟩]] := by decide +kernel
  rw [all] at linked
  exact ⟨by decide +kernel, all, entry, providers, found, sees, (Option.some.inj linked).symm⟩

end Wiring
