import Wiring.Proofs.Encapsulation
import Wiring.Proofs.Identity
import Wiring.Proofs.Linkages
import Wiring.Stock

/-!
Forbidden shadowing. A resolution compares what a scope registers with the nearest registration
above it. As having one producer is an equivalence, this settles all scopes above: a resolution is
accepted without shadowing exactly when, along every chain of scopes, each key has one producer.
-/

namespace Wiring

/-- A scope stands above another one. -/
def Above (scopes : List Scope) (upper scope : ScopeId) : Prop :=
  ∃ data parent, scopes[scope.index]? = some data ∧ data.parent = some parent ∧
    Under scopes upper parent

theorem Above.under {scopes : List Scope} {upper scope : ScopeId}
    (above : Above scopes upper scope) : Under scopes upper scope := by
  obtain ⟨data, parent, here, isParent, under⟩ := above
  exact .child here isParent under

namespace Draft

variable {offered : Pool → Prop} {assembly : Assembly} {draft : Draft}

/-- The registry of a parent is there. -/
theorem Sound.getElem?_parent (sound : draft.Sound assembly)
    (wellFormed : assembly.WellFormed offered) {scope parent : ScopeId} {data : Scope}
    (here : assembly.scopes[scope.index]? = some data) (above : data.parent = some parent) :
    draft.registries[parent.index]? = some (draft.registry parent) := by
  have lower := wellFormed.parents scope.index data here parent above
  have inside := (List.getElem?_eq_some_iff.mp here).1
  rw [sound.getElem?_registries, List.getElem?_eq_getElem (lower.trans inside)]
  rfl

/-- A walk up from a scope does not depend on its bound when that is large enough. -/
theorem Sound.lineage_eq (sound : draft.Sound assembly) (wellFormed : assembly.WellFormed offered)
    {scope : ScopeId} {length other : Nat} (enough : scope.index ≤ length)
    (too : scope.index ≤ other) :
    Registry.lineage draft.registries length (draft.registry scope) =
      Registry.lineage draft.registries other (draft.registry scope) := by
  have first {scope : ScopeId} (zero : scope.index = 0) :
      (draft.registry scope).parent = none := by
    rw [sound.registry_parent]
    cases here : assembly.scopes[scope.index]? with
    | none => rfl
    | some data =>
      refine Option.eq_none_iff_forall_ne_some.mpr fun parent above => ?_
      have lower := wellFormed.parents scope.index data here parent above
      omega
  induction length generalizing scope other with
  | zero => cases other <;> simp [Registry.lineage, first (Nat.le_zero.mp enough)]
  | succ length ih =>
    cases other with
    | zero => simp [Registry.lineage, first (Nat.le_zero.mp too)]
    | succ other =>
      unfold Registry.lineage
      rw [sound.registry_parent]
      cases here : assembly.scopes[scope.index]? with
      | none => rfl
      | some data =>
        rw [Option.bind_some]
        cases above : data.parent with
        | none => rfl
        | some parent =>
          have lower := wellFormed.parents scope.index data here parent above
          rw [Option.bind_some, sound.getElem?_parent wellFormed here above]
          dsimp only
          rw [ih (by omega : parent.index ≤ length) (by omega : parent.index ≤ other)]

/-- The nearest entry is that of the scope itself, or else the one that its parent sees. -/
theorem Sound.nearest?_eq (sound : draft.Sound assembly) (wellFormed : assembly.WellFormed offered)
    {scope : ScopeId} {data : Scope} (here : assembly.scopes[scope.index]? = some data)
    (key : Key) :
    draft.nearest? scope key = ((draft.registry scope).get? key).or
      (data.parent.bind fun parent => draft.nearest? parent key) := by
  have inside := (List.getElem?_eq_some_iff.mp here).1
  rw [← sound.length_registries] at inside
  obtain ⟨length, size⟩ : ∃ length, draft.registries.length = length + 1 :=
    ⟨draft.registries.length - 1, by omega⟩
  unfold nearest? Registry.getNearest? Registry.ancestry
  rw [size, Registry.lineage, List.findSome?_cons, sound.registry_parent, here, Option.bind_some]
  cases above : data.parent with
  | none => cases (draft.registry scope).get? key <;> rfl
  | some parent =>
    have lower := wellFormed.parents scope.index data here parent above
    rw [Option.bind_some, Option.bind_some, sound.getElem?_parent wellFormed here above,
      sound.lineage_eq wellFormed (by omega : parent.index ≤ length + 1)
        (by omega : parent.index ≤ length)]
    cases (draft.registry scope).get? key <;> rfl

/-- What a scope sees is registered there or above. -/
theorem Sound.exists_of_nearest? (sound : draft.Sound assembly)
    (wellFormed : assembly.WellFormed offered) {scope : ScopeId} {data : Scope}
    (here : assembly.scopes[scope.index]? = some data) {key : Key} {id : EntryId}
    (nearest : draft.nearest? scope key = some id) :
    ∃ upper, Under assembly.scopes upper scope ∧ (draft.registry upper).get? key = some id := by
  obtain ⟨index⟩ := scope
  induction index using Nat.strongRecOn generalizing data with
  | ind index ih =>
    rw [sound.nearest?_eq wellFormed here] at nearest
    cases own : (draft.registry ⟨index⟩).get? key with
    | some found =>
      obtain rfl : found = id := by simpa [own] using nearest
      exact ⟨⟨index⟩, .top, own⟩
    | none =>
      rw [own, Option.none_or] at nearest
      obtain ⟨parent, above, onward⟩ := Option.bind_eq_some_iff.mp nearest
      obtain ⟨other, place, -⟩ := wellFormed.tree.parents index data here parent above
      obtain ⟨upper, under, held⟩ :=
        ih parent.index (wellFormed.parents index data here parent above) place onward
      exact ⟨upper, .child here above under, held⟩

/-- What every scope registers has the producer that its parent sees under the key. -/
def Unhidden (assembly : Assembly) (draft : Draft) : Prop :=
  ∀ (scope : ScopeId) (data : Scope) (parent : ScopeId) (key : Key) (target : Delegate)
    (hidden : EntryId), assembly.scopes[scope.index]? = some data → data.parent = some parent →
    (draft.row scope).get? key = some target → draft.nearest? parent key = some hidden →
    (delegateTo draft.entries hidden).Same target

/-- Where nothing is hidden, a scope sees the producer of every registration above it. -/
theorem Unhidden.exists_nearest? (unhidden : Unhidden assembly draft)
    (sound : draft.Sound assembly) (wellFormed : assembly.WellFormed offered)
    {upper scope : ScopeId} (under : Under assembly.scopes upper scope) {data : Scope}
    (here : assembly.scopes[upper.index]? = some data) {key : Key} {target : Delegate}
    (held : (draft.row upper).get? key = some target) :
    ∃ id, draft.nearest? scope key = some id ∧ (delegateTo draft.entries id).Same target := by
  induction under with
  | top =>
    rw [row, Registry.get?_row, Option.map_eq_some_iff] at held
    obtain ⟨id, found, rfl⟩ := held
    exact ⟨id, by rw [sound.nearest?_eq wellFormed here, found]; rfl, .refl _⟩
  | @child scope parent data place above _ ih =>
    obtain ⟨hidden, nearest, same⟩ := ih
    rw [sound.nearest?_eq wellFormed place, above, Option.bind_some, nearest]
    cases own : (draft.registry scope).get? key with
    | none => exact ⟨hidden, rfl, same⟩
    | some id =>
      refine ⟨id, rfl, Delegate.Same.trans ?_ same⟩
      refine (unhidden scope data parent key _ hidden place above ?_ nearest).symm
      rw [row, Registry.get?_row, own]
      rfl

/-- Nothing is hidden exactly when each key has one producer along every chain of scopes. -/
theorem Sound.unhidden_iff (sound : draft.Sound assembly)
    (wellFormed : assembly.WellFormed offered) :
    Unhidden assembly draft ↔ ∀ (scope upper : ScopeId) (key : Key) (target hidden : Delegate),
      Above assembly.scopes upper scope → (draft.row scope).get? key = some target →
      (draft.row upper).get? key = some hidden → hidden.Same target := by
  constructor
  · rintro unhidden scope upper key target hidden ⟨data, parent, here, above, under⟩ held held'
    cases place : assembly.scopes[upper.index]? with
    | none =>
      rw [sound.row_eq_nil place] at held'
      cases held'
    | some other =>
      obtain ⟨id, nearest, same⟩ := unhidden.exists_nearest? sound wellFormed under place held'
      exact same.symm.trans (unhidden scope data parent key target id here above held nearest)
  · intro single scope data parent key target hidden here above held nearest
    obtain ⟨other, place, -⟩ := wellFormed.tree.parents scope.index data here parent above
    obtain ⟨upper, under, found⟩ := sound.exists_of_nearest? wellFormed place nearest
    refine single scope upper key target _ ⟨data, parent, here, above, under⟩ held ?_
    rw [row, Registry.get?_row, found]
    rfl

end Draft

/-- Along every chain of scopes, all registrations of a key have one producer. -/
def Resolution.SingleProducer (scopes : List Scope) (resolution : Resolution) : Prop :=
  ∀ (scope upper : ScopeId) (registry above : Registry) (key : Key) (id hidden : EntryId),
    Above scopes upper scope → resolution.registries[scope.index]? = some registry →
    resolution.registries[upper.index]? = some above → (key, id) ∈ registry.registrations →
    (key, hidden) ∈ above.registrations → sameProducer resolution.entries hidden id = true

namespace Assembly

variable {offered : Pool → Prop} {assembly : Assembly}

/-- The assembly with shadowing allowed or forbidden. -/
def allowing (assembly : Assembly) (allowed : Bool) : Assembly :=
  { assembly with config := { assembly.config with allowShadowing := allowed } }

/-- The resolution of an assembly is accepted without shadowing when it is accepted with it and
nothing is hidden. -/
theorem accepted_allowing (assembly : Assembly) :
    (assembly.allowing false).survey.accepted = true ↔
      (assembly.allowing true).survey.accepted = true ∧
        assembly.exportedDraft.registries.flatMap assembly.exportedDraft.shadowings = [] := by
  rw [survey_accepted_iff, survey_accepted_iff]
  change (_ ∧ _ ∧ _ ∧ (false = true ∨ _)) ↔ (_ ∧ _ ∧ _ ∧ (true = true ∨ _)) ∧ _
  simp only [Bool.false_eq_true, false_or, true_or, and_true, and_assoc]
  rfl

/-- Where nothing is hidden, it makes no difference whether shadowing is allowed. -/
theorem survey_allowing (unhidden :
    assembly.exportedDraft.registries.flatMap assembly.exportedDraft.shadowings = []) :
    (assembly.allowing false).survey = (assembly.allowing true).survey := by
  have final : (assembly.allowing false).finalDraft = (assembly.allowing true).finalDraft := by
    change assembly.linkedDraft.rejectShadowing assembly.scopes = assembly.linkedDraft
    unfold Draft.rejectShadowing
    rw [Draft.Agrees.shadowings_eq assembly.linkedDraft_agrees, unhidden]
    rfl
  unfold survey
  rw [final]
  rfl

theorem unhidden_iff_singleProducer (wellFormed : assembly.WellFormed offered)
    (distinct : ∀ scope, (assembly.exportedDraft.row scope).keys.Nodup) :
    Draft.Unhidden assembly assembly.exportedDraft ↔
      assembly.survey.SingleProducer assembly.scopes := by
  have sound := exportedDraft_sound wellFormed
  have row_of_mem {scope : ScopeId} {registry : Registry} {key : Key} {id : EntryId}
      (held : assembly.survey.registries[scope.index]? = some registry)
      (member : (key, id) ∈ registry.registrations) :
      (∃ entry, assembly.exportedDraft.entries[id.index]? = some entry) ∧
        (assembly.exportedDraft.row scope).get? key =
          some (delegateTo assembly.exportedDraft.entries id) := by
    obtain rfl := registry_exportedDraft held
    obtain ⟨entry, found, -⟩ := sound.holds_registry scope _ member
    exact ⟨⟨entry, found⟩, Row.get?_of_mem (distinct scope) (List.mem_map_of_mem member)⟩
  have exists_mem {scope : ScopeId} {key : Key} {target : Delegate}
      (held : (assembly.exportedDraft.row scope).get? key = some target) :
      ∃ registry id, assembly.survey.registries[scope.index]? = some registry ∧
        (key, id) ∈ registry.registrations ∧
        delegateTo assembly.exportedDraft.entries id = target := by
    cases here : assembly.scopes[scope.index]? with
    | none =>
      rw [sound.row_eq_nil here] at held
      cases held
    | some data =>
      obtain ⟨pair, member, same⟩ := List.mem_map.mp (Row.mem_of_get? held)
      obtain ⟨rfl, rfl⟩ := Prod.mk.inj same
      refine ⟨_, pair.2, ?_, member, rfl⟩
      rw [survey_registries, sound.getElem?_registries, here]
      rfl
  rw [sound.unhidden_iff wellFormed]
  constructor
  · intro single scope upper registry above key id hidden stands held held' member member'
    obtain ⟨⟨entry, found⟩, row⟩ := row_of_mem held member
    obtain ⟨⟨entry', found'⟩, row'⟩ := row_of_mem held' member'
    rw [survey_entries, sound.sameProducer_iff wellFormed found' found]
    exact single scope upper key _ _ stands row row'
  · intro single scope upper key target hidden stands row row'
    obtain ⟨registry, id, held, member, rfl⟩ := exists_mem row
    obtain ⟨above, id', held', member', rfl⟩ := exists_mem row'
    obtain ⟨⟨entry, found⟩, -⟩ := row_of_mem held member
    obtain ⟨⟨entry', found'⟩, -⟩ := row_of_mem held' member'
    have same := single scope upper registry above key id id' stands held held' member member'
    rwa [survey_entries, sound.sameProducer_iff wellFormed found' found] at same

variable {applications : List Application} {memory : Memory} {application : Application}
  {state : Memory × Compiled}

/-- Accessors that back one producer are the same, or imported under one identity. -/
theorem id_eq_of_backs {compiled : Compiled} {first second : Delegate} {accessor other : Accessor}
    (backs : first.Backs compiled accessor) (backs' : second.Backs compiled other)
    (same : first.Same second) : accessor.id = other.id := by
  cases first with
  | entry target =>
    cases second with
    | entry target' =>
      obtain rfl : target = target' := same
      exact congrArg Accessor.id (Option.some.inj (Eq.trans (Eq.symm backs) backs'))
    | foreign imported => exact same.elim
  | foreign imported =>
    cases second with
    | entry target => exact same.elim
    | foreign imported' =>
      obtain rfl : accessor = imported.accessor := backs
      obtain rfl : other = imported'.accessor := backs'
      exact Delegate.same_foreign.mp same

/-- Where nothing is hidden, a scope sees every key that a scope above it sees, through the same
accessor. -/
theorem Compiles.shares_above (compiles : assembly.Compiles applications memory application state)
    (wellFormed : assembly.WellFormed offered)
    (unhidden : Draft.Unhidden assembly assembly.exportedDraft) {scope upper : ScopeId}
    (stands : Above assembly.scopes upper scope) {pool above : Pool}
    (found : application.pools[scope.index]? = some pool)
    (found' : application.pools[upper.index]? = some above) {key : Key} {entry : RuntimeEntry}
    (visible : above.find? key = some entry) :
    ∃ own, pool.find? key = some own ∧ own.sharesAccessor entry = true := by
  have sound := exportedDraft_sound wellFormed
  have sees {scope : ScopeId} {pool : Pool}
      (found : application.pools[scope.index]? = some pool) :
      (∃ data, assembly.scopes[scope.index]? = some data) ∧
      Option.Rel (fun id entry => entry.key = key ∧ state.2 id = some entry.accessor)
        (assembly.exportedDraft.nearest? scope key) (pool.find? key) := by
    obtain ⟨registry, held, -⟩ := compiles.scope_matches found
    have inside := (List.getElem?_eq_some_iff.mp found).1
    rw [compiles.length] at inside
    have nearest := compiles.rel_getNearest? wellFormed found held key
    rw [← registry_exportedDraft held, survey_registries] at nearest
    exact ⟨⟨_, List.getElem?_eq_getElem inside⟩, nearest⟩
  have backs {scope : ScopeId} {id : EntryId} {accessor : Accessor}
      (nearest : assembly.exportedDraft.nearest? scope key = some id)
      (known : state.2 id = some accessor) :
      (delegateTo assembly.exportedDraft.entries id).Backs state.2 accessor := by
    obtain ⟨declared, place, -⟩ := sound.of_nearest? nearest
    rw [← survey_entries] at place ⊢
    exact compiles.backs place known
  obtain ⟨⟨data, here⟩, seen⟩ := sees found'
  rw [visible] at seen
  generalize nearest : assembly.exportedDraft.nearest? upper key = result at seen
  cases seen with
  | @some id _ related =>
    obtain ⟨top, under, held⟩ := sound.exists_of_nearest? wellFormed here nearest
    have row : (assembly.exportedDraft.row top).get? key =
        some (delegateTo assembly.exportedDraft.entries id) := by
      rw [Draft.row, Registry.get?_row, held]
      rfl
    obtain ⟨highest, place⟩ : ∃ highest, assembly.scopes[top.index]? = some highest := by
      refine Option.ne_none_iff_exists'.mp fun missing => ?_
      rw [sound.row_eq_nil missing] at row
      cases row
    obtain ⟨own, nearest', same⟩ :=
      unhidden.exists_nearest? sound wellFormed (under.trans stands.under) place row
    obtain ⟨-, seen⟩ := sees found
    rw [nearest'] at seen
    obtain ⟨entry', visible', -, known⟩ := exists_of_rel_some seen
    exact ⟨entry', visible', RuntimeEntry.sharesAccessor_iff.mpr
      (id_eq_of_backs (backs nearest' known) (backs nearest related.2) same)⟩

end Assembly

namespace Host

variable {host : Host} {assembly : Assembly}

/-- To forbid shadowing means that every key has one producer along every chain of scopes. An
assembly is resolved without shadowing if and only if it is resolved with it and any two
registrations of a key, one above the other, have the same producer; then both resolutions are the
same. In an application that was built without shadowing a scope sees every key that a scope above
it sees, through an entry that shares its accessor. -/
theorem Reachable.forbids_shadowing (reachable : host.Reachable)
    (current : host.assembly = some assembly) :
    ((∃ resolution, (assembly.allowing false).resolve = .ok resolution) ↔
        ∃ resolution, (assembly.allowing true).resolve = .ok resolution ∧
          resolution.SingleProducer assembly.scopes) ∧
      (∀ strict lax, (assembly.allowing false).resolve = .ok strict →
        (assembly.allowing true).resolve = .ok lax → strict = lax) ∧
      (assembly.config.allowShadowing = false → ∀ (number : Nat) (application : Application),
        host.build.1 = some (.application number application) →
        ∀ (scope upper : ScopeId) (pool above : Pool) (key : Key) (entry : RuntimeEntry),
          Above assembly.scopes upper scope → application.pools[scope.index]? = some pool →
          application.pools[upper.index]? = some above → above.find? key = some entry →
          ∃ own, pool.find? key = some own ∧ own.sharesAccessor entry = true) := by
  have wellFormed := reachable.sound.wellFormed assembly current
  have sound := Assembly.exportedDraft_sound wellFormed
  have distinct (clean : assembly.exportedDraft.diagnostics.isEmpty = true) (scope : ScopeId) :
      (assembly.exportedDraft.row scope).keys.Nodup := by
    have populated := (Assembly.populatedDraft_evolves wellFormed
      (Assembly.orderedDraft_sound assembly)).1
    have filled := (Assembly.exportedDraft_evolves wellFormed populated).2.accepted clean
    exact (Assembly.traced_exportedDraft wellFormed reachable.sound.typed filled).distinct
      (some scope)
  have unhidden (clean : assembly.exportedDraft.diagnostics.isEmpty = true) :
      assembly.exportedDraft.registries.flatMap assembly.exportedDraft.shadowings = [] ↔
        Draft.Unhidden assembly assembly.exportedDraft :=
    sound.shadowings_eq_nil wellFormed (distinct clean)
  have single (clean : assembly.exportedDraft.diagnostics.isEmpty = true) :
      assembly.exportedDraft.registries.flatMap assembly.exportedDraft.shadowings = [] ↔
        (assembly.allowing true).survey.SingleProducer assembly.scopes := by
    rw [unhidden clean, Assembly.unhidden_iff_singleProducer wellFormed (distinct clean)]
    unfold Resolution.SingleProducer
    simp only [Assembly.survey_registries, Assembly.survey_entries]
    rfl
  refine ⟨⟨?_, ?_⟩, fun strict lax resolved resolved' => ?_, fun forbidden number application built
    scope upper pool above key entry stands found found' visible => ?_⟩
  · rintro ⟨resolution, resolved⟩
    obtain ⟨accepted, none_hidden⟩ :=
      assembly.accepted_allowing.mp (Assembly.survey_of_resolve resolved).1
    have clean := ((assembly.allowing true).survey_accepted_iff.mp accepted).1
    exact ⟨_, Assembly.resolve_of_accepted accepted, (single clean).mp none_hidden⟩
  · rintro ⟨resolution, resolved, holds⟩
    obtain ⟨accepted, rfl⟩ := Assembly.survey_of_resolve resolved
    have clean := ((assembly.allowing true).survey_accepted_iff.mp accepted).1
    exact ⟨_, Assembly.resolve_of_accepted
      (assembly.accepted_allowing.mpr ⟨accepted, (single clean).mpr holds⟩)⟩
  · obtain ⟨accepted, rfl⟩ := Assembly.survey_of_resolve resolved
    obtain ⟨-, rfl⟩ := Assembly.survey_of_resolve resolved'
    exact Assembly.survey_allowing (assembly.accepted_allowing.mp accepted).2
  · obtain ⟨state, compiles⟩ := reachable.sound.exists_compiles current built
    obtain ⟨clean, -, -, none_hidden⟩ := assembly.survey_accepted_iff.mp compiles.accepted
    rw [forbidden] at none_hidden
    have nothing := (unhidden clean).mp (none_hidden.resolve_left Bool.false_ne_true)
    exact compiles.shares_above wellFormed nothing stands found found' visible

/-- A host that is about to build, without shadowing, a number in its root scope, which a scope
below imports. -/
def guarded : Host :=
  (Host.new.start { Config.named "outer" with allowShadowing := false }).declareEach
    [.provide (.given (.ofParts .u8 7 "") none) [],
      .link "inner" ⟨"inner", .nothing⟩ fun _ => [.importFrom (.scope .root) []]]

theorem reachable_guarded : guarded.Reachable :=
  ⟨0, .head (.start _ _) (leads_declareEach _ _ fun _ =>
    ⟨trivial, fun _ => ⟨nofun, trivial⟩, trivial⟩)⟩

end Host

/-- The assembly that this host is about to build. -/
def Assembly.guarded : Assembly := Host.guarded.assembly.getD (.new 0 (.named ""))

theorem Assembly.scopes_guarded : guarded.scopes =
    [⟨"outer", none, [⟨1⟩], [⟨0⟩], [], []⟩,
      ⟨"outer/inner", some .root, [], [], [⟨⟨.scope .root, []⟩, some "inner"⟩], []⟩] := rfl

theorem Host.forbids_shadowing_sample :
    (∃ resolution, (Assembly.guarded.allowing true).resolve = .ok resolution ∧
      resolution.SingleProducer Assembly.guarded.scopes) ∧
    ∃ application pool root entry own, guarded.build.1 = some (.application 0 application) ∧
      application.pools[1]? = some pool ∧ application.pools[0]? = some root ∧
      root.find? (.of .u8) = some entry ∧ pool.find? (.of .u8) = some own ∧
      own.sharesAccessor entry = true := by
  obtain ⟨application, built⟩ := guarded.exists_application (by decide +kernel)
  have current : guarded.assembly = some Assembly.guarded := rfl
  obtain ⟨iff, -, shares⟩ := reachable_guarded.forbids_shadowing current
  have resolved := Assembly.resolve_of_accepted
    (show (Assembly.guarded.allowing false).survey.accepted = true by decide +kernel)
  have above : Above Assembly.guarded.scopes .root ⟨1⟩ :=
    ⟨_, .root, by rw [Assembly.scopes_guarded]; rfl, rfl, .top⟩
  have seen : guarded.build.2.applications.map (fun application =>
      application.pools.map fun pool => (pool.find? (.of .u8)).isSome) = [[true, true]] := by
    decide +kernel
  obtain ⟨after, -, host_after, -⟩ := build_of_application current built
  rw [host_after] at seen
  obtain ⟨root, rest, pools, sees, others⟩ := List.map_eq_cons_iff.mp (List.cons.inj seen).1
  obtain ⟨pool, last, rfl, -, -⟩ := List.map_eq_cons_iff.mp others
  obtain ⟨entry, visible⟩ := Option.isSome_iff_exists.mp sees
  have found : application.pools[1]? = some pool := by rw [pools]; rfl
  have found' : application.pools[0]? = some root := by rw [pools]; rfl
  obtain ⟨own, held, shared⟩ := shares rfl 0 application built ⟨1⟩ .root pool root _ entry above
    found found' visible
  exact ⟨iff.mp ⟨_, resolved⟩, application, pool, root, entry, own, built, found, found', visible,
    held, shared⟩

end Wiring
