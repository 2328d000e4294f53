import Wiring.Proofs.Changes

/-!
What declarations do, and on whose behalf. Bundles install further bundles while they declare, and
share one slot for the source of what is declared. Whatever they nest, the slot holds the innermost
bundle, so that an assembly follows from the declarations alone, each act with its own bundle.
-/

namespace Wiring

/-- Something that a declaration adds to an assembly: a scope, a provider or an import with the
bundle that it comes from, or a bundle. -/
inductive Act where
  | opened
  | provided (key : Key) (scope : ScopeId) (source : Option String)
  | imported (scope : ScopeId) (imported : Import)
  | installed (installation : Installation)

namespace Act

/-- A scope is added. -/
def opens : Act → Bool
  | .opened => true
  | _ => false

/-- The provider that is added: its key, its scope and its bundle. -/
def provided? : Act → Option (Key × ScopeId × Option String)
  | .provided key scope source => some (key, scope, source)
  | _ => none

/-- The import that is added to the scope. -/
def importedIn? (scope : ScopeId) : Act → Option Import
  | .imported home declared => if home = scope then some declared else none
  | _ => none

/-- The bundle that is added. -/
def installed? : Act → Option Installation
  | .installed installation => some installation
  | _ => none

end Act

/-- The key under which a provider is declared. -/
def Provider.key : Provider → Key
  | .given value key => key.getD (Key.of value.type)
  | .typed output key _ _ => key.getD (Key.of output)
  | .untyped key _ _ => key

mutual

/-- The acts of a declaration in a scope, on behalf of a bundle or of none, when there is a number
of scopes already. A bundle comes before what it declares, and all of that is on its behalf. -/
def Declaration.acts (config : Config) :
    Declaration → Option String → ScopeId → Nat → List Act
  | .provide provider _, source, scope, _ => [.provided provider.key scope source]
  | .importFrom place ops, source, scope, _ => [.imported scope ⟨⟨place, ops⟩, source⟩]
  | .exportKey _, _, _, _ => []
  | .exportRenamed _ _, _, _, _ => []
  | .exportAll, _, _, _ => []
  | .install bundle configure, _, scope, scopes =>
    .installed ⟨scope, bundle⟩ ::
      Declaration.actsEach config (configure config) (some bundle.name) scope scopes
  | .link _ bundle configure, _, _, scopes =>
    .opened :: .installed ⟨⟨scopes⟩, bundle⟩ ::
      Declaration.actsEach config (configure config) (some bundle.name) ⟨scopes⟩ (scopes + 1)
  | .locate, _, _, _ => []
  | .panic _, _, _, _ => []
  | .attempt declarations, source, scope, scopes =>
    Declaration.actsEach config declarations source scope scopes

/-- The acts of declarations in turn. -/
def Declaration.actsEach (config : Config) :
    List Declaration → Option String → ScopeId → Nat → List Act
  | [], _, _, _ => []
  | declaration :: rest, source, scope, scopes =>
    declaration.acts config source scope scopes ++
      Declaration.actsEach config rest source scope
        (scopes + (declaration.acts config source scope scopes).countP Act.opens)

end

mutual

/-- No panic was caught before the answer was given. -/
def Declared.isSmooth : Declared → Bool
  | .provided _ _ => true
  | .done => true
  | .installed _ steps => Declared.areSmooth steps
  | .location _ _ _ => true
  | .attempted steps => Declared.areSmooth steps
  | .caught _ => false

/-- No panic was caught before any of the answers was given. -/
def Declared.areSmooth : List Declared → Bool
  | [] => true
  | answer :: rest => answer.isSmooth && Declared.areSmooth rest

end

/-- The key, the scope and the source of an entry. -/
def Entry.provided (entry : Entry) : Key × ScopeId × Option String :=
  (entry.key, entry.scope, entry.source)

namespace Assembly

/-- The imports of a scope. -/
def importsOf (assembly : Assembly) (scope : ScopeId) : List Import :=
  (assembly.scopes[scope.index]?.map Scope.imports).getD []

/-- One assembly follows another one by the acts, and the source is what it was. Bundles are added
in scopes that are there. -/
structure Follows (before after : Assembly) (acts : List Act) : Prop where
  entries : after.entries.map Entry.provided =
    before.entries.map Entry.provided ++ acts.filterMap Act.provided?
  imports : ∀ scope, after.importsOf scope =
    before.importsOf scope ++ acts.filterMap (Act.importedIn? scope)
  installations : after.installations = before.installations ++ acts.filterMap Act.installed?
  scopes : after.scopes.length = before.scopes.length + acts.countP Act.opens
  inside : ∀ installation ∈ acts.filterMap Act.installed?,
    installation.scope.index < after.scopes.length
  config : after.config = before.config
  source : after.source = before.source

theorem Follows.refl (assembly : Assembly) : assembly.Follows assembly [] where
  entries := (List.append_nil _).symm
  imports _ := (List.append_nil _).symm
  installations := (List.append_nil _).symm
  scopes := rfl
  inside := nofun
  config := rfl
  source := rfl

theorem Follows.trans {first second third : Assembly} {acts rest : List Act}
    (follows : first.Follows second acts) (onward : second.Follows third rest) :
    first.Follows third (acts ++ rest) where
  entries := by rw [onward.entries, follows.entries, List.filterMap_append, List.append_assoc]
  imports scope := by
    rw [onward.imports, follows.imports, List.filterMap_append, List.append_assoc]
  installations := by
    rw [onward.installations, follows.installations, List.filterMap_append, List.append_assoc]
  scopes := by rw [onward.scopes, follows.scopes, List.countP_append, Nat.add_assoc]
  inside installation member := by
    rw [List.filterMap_append] at member
    rcases List.mem_append.mp member with before | after
    · rw [onward.scopes]
      exact Nat.lt_add_right _ (follows.inside installation before)
    · exact onward.inside installation after
  config := onward.config.trans follows.config
  source := onward.source.trans follows.source

variable {assembly : Assembly}

theorem importsOf_changeScope (assembly : Assembly) (scope other : ScopeId)
    (change : Scope → Scope) (kept : ∀ data, (change data).imports = data.imports) :
    (assembly.changeScope scope change).importsOf other = assembly.importsOf other := by
  unfold importsOf
  rw [getElem?_changeScope, Option.map_map]
  congr 2
  funext data
  dsimp only [Function.comp_apply]
  split
  · exact kept data
  · rfl

theorem follows_declare (assembly : Assembly) {entry : Entry}
    (source : entry.source = assembly.source) : assembly.Follows (assembly.declare entry).2
      [.provided entry.key entry.scope assembly.source] where
  entries := by
    rw [← source]
    simp [declare, changeScope, Act.provided?, Entry.provided]
  imports scope := by
    refine Eq.trans (importsOf_changeScope _ entry.scope scope _ ?_) (List.append_nil _).symm
    exact fun _ => rfl
  installations := (List.append_nil _).symm
  scopes := by simp [declare, changeScope, Act.opens]
  inside := nofun
  config := rfl
  source := rfl

theorem follows_addImport (assembly : Assembly) {scope : ScopeId}
    (inside : scope.index < assembly.scopes.length) (spec : ImportSpec) :
    assembly.Follows (assembly.addImport scope spec)
      [.imported scope ⟨spec, assembly.source⟩] where
  entries := (List.append_nil _).symm
  imports other := by
    unfold importsOf addImport
    rw [getElem?_changeScope]
    by_cases here : scope = other
    · subst here
      simp [List.getElem?_eq_getElem inside, Act.importedIn?]
    · have different : scope.index ≠ other.index := fun same => here (congrArg ScopeId.mk same)
      simp [different, Act.importedIn?, here]
  installations := (List.append_nil _).symm
  scopes := by simp [addImport, changeScope, Act.opens]
  inside := nofun
  config := rfl
  source := rfl

theorem follows_addExport (assembly : Assembly) (scope : ScopeId) (spec : ExportSpec) :
    assembly.Follows (assembly.addExport scope spec) [] where
  entries := (List.append_nil _).symm
  imports other := by
    refine Eq.trans (importsOf_changeScope assembly scope other _ ?_) (List.append_nil _).symm
    exact fun _ => rfl
  installations := (List.append_nil _).symm
  scopes := by simp [addExport, changeScope]
  inside := nofun
  config := rfl
  source := rfl

theorem follows_addScope {name : String} {parent id : ScopeId} {grown : Assembly}
    (added : assembly.addScope name parent = .ok (id, grown)) :
    assembly.Follows grown [.opened] := by
  obtain ⟨-, path, rfl⟩ := eq_joinScope_of_addScope added
  refine ⟨(List.append_nil _).symm, fun scope => ?_, (List.append_nil _).symm,
    by simp [joinScope, appendScope, changeScope, Act.opens], nofun, rfl, rfl⟩
  refine Eq.trans (importsOf_changeScope _ parent scope _ fun _ => ?_) ?_
  · rfl
  unfold importsOf appendScope
  rcases Nat.lt_trichotomy scope.index assembly.scopes.length with inside | last | outside
  · simp [List.getElem?_append_left inside, Act.importedIn?]
  · simp [last, Scope.empty, Act.importedIn?]
  · have absent := List.getElem?_eq_none (Nat.le_of_lt outside)
    have beyond : (assembly.scopes ++ [Scope.empty path (some parent)])[scope.index]? = none :=
      List.getElem?_eq_none (by rwa [List.length_append, List.length_singleton])
    rw [absent, beyond]
    rfl

/-- An entry stays where it is from when it is adjusted. -/
theorem follows_adjust {index : Nat} {entry adjusted : Entry}
    (found : assembly.entries[index]? = some entry) (same : adjusted.provided = entry.provided) :
    assembly.Follows { assembly with entries := assembly.entries.set index adjusted } [] where
  entries := by
    obtain ⟨inside, rfl⟩ := List.getElem?_eq_some_iff.mp found
    have listed : index < (assembly.entries.map Entry.provided).length := by
      rwa [List.length_map]
    rw [List.map_set, same, List.filterMap_nil, List.append_nil,
      ← List.getElem_map Entry.provided (h := listed), List.set_getElem_self listed]
  imports _ := (List.append_nil _).symm
  installations := (List.append_nil _).symm
  scopes := rfl
  inside := nofun
  config := rfl
  source := rfl

/-- A bundle is entered, what it declares is on its behalf, and then the source is the old one. -/
theorem Follows.installed {scope : ScopeId} {bundle : Bundle} {after : Assembly} {acts : List Act}
    (follows : (assembly.enter scope bundle).Follows after acts)
    (within : scope.index < assembly.scopes.length) :
    assembly.Follows { after with source := assembly.source }
      (.installed ⟨scope, bundle⟩ :: acts) where
  entries := follows.entries
  imports := follows.imports
  installations := by
    have installed := follows.installations
    rw [enter, List.append_assoc] at installed
    exact installed
  scopes := follows.scopes
  inside installation member := by
    rcases List.mem_cons.mp member with rfl | later
    · rw [follows.scopes]
      exact Nat.lt_add_right _ within
    · exact follows.inside installation later
  config := follows.config
  source := rfl

end Assembly

namespace Declaring

variable {α β : Type} {state : Assembly × List Event} {acts rest : List Act}

/-- When the declaring gives a value, the value has the property, and the assembly follows by the
acts. -/
def Adds (declaring : Declaring α) (state : Assembly × List Event) (acts : List Act)
    (given : α → Prop) : Prop :=
  declaring.Yields state (fun value after => state.1.Follows after.1 acts ∧ given value)
    (fun _ _ => True) fun _ => True

theorem Adds.bind {declaring : Declaring α} {next : α → Declaring β} {given : α → Prop}
    {last : β → Prop} (adds : declaring.Adds state acts given)
    (onward : ∀ value (after : Assembly × List Event), state.1.Follows after.1 acts →
      given value → (next value).Adds after rest last) :
    Adds (declaring >>= next) state (acts ++ rest) last := by
  unfold Adds
  rw [Attempt.yields_bind]
  refine Attempt.Yields.mono adds ?_ (fun _ _ => id) (fun _ => id)
  intro value middle yielded
  obtain ⟨follows, fits⟩ := yielded
  exact (onward value middle follows fits).mono
    (fun _ _ further => ⟨follows.trans further.1, further.2⟩) (fun _ _ => id) (fun _ => id)

/-- A value is returned at the end. -/
theorem Adds.returning {declaring : Declaring α} {given : α → Prop}
    (adds : declaring.Adds state acts given) (answer : α → β) :
    Adds (do let value ← declaring; return answer value) state acts fun _ => True := by
  rw [← List.append_nil acts]
  exact adds.bind fun _ _ _ _ => ⟨.refl _, trivial⟩

/-- When the declaring gives a value that fits, the assembly follows by the acts. -/
def AddsIf (fits : α → Prop) (declaring : Declaring α) (state : Assembly × List Event)
    (acts : List Act) : Prop :=
  declaring.Yields state (fun value after => fits value → state.1.Follows after.1 acts)
    (fun _ _ => True) fun _ => True

theorem Adds.addsIf {declaring : Declaring α} {given : α → Prop}
    (adds : declaring.Adds state acts given) (fits : α → Prop) :
    declaring.AddsIf fits state acts :=
  Attempt.Yields.mono adds (fun _ _ yielded _ => yielded.1) (fun _ _ => id) (fun _ => id)

theorem Adds.bindIf {declaring : Declaring α} {next : α → Declaring β} {given : α → Prop}
    {fits : β → Prop} (adds : declaring.Adds state acts given)
    (onward : ∀ value (after : Assembly × List Event), state.1.Follows after.1 acts →
      given value → (next value).AddsIf fits after rest) :
    AddsIf fits (declaring >>= next) state (acts ++ rest) := by
  unfold AddsIf
  rw [Attempt.yields_bind]
  refine Attempt.Yields.mono adds ?_ (fun _ _ => id) (fun _ => id)
  intro value middle yielded
  obtain ⟨follows, given⟩ := yielded
  exact (onward value middle follows given).mono
    (fun _ _ further fine => follows.trans (further fine)) (fun _ _ => id) (fun _ => id)

/-- A value is returned at the end, which fits when the value before does. -/
theorem AddsIf.returning {declaring : Declaring α} {fits : α → Prop} {fits' : β → Prop}
    (adds : declaring.AddsIf fits state acts) {answer : α → β}
    (weaker : ∀ value, fits' (answer value) → fits value) :
    AddsIf fits' (do let value ← declaring; return answer value) state acts := by
  unfold AddsIf
  rw [Attempt.yields_bind]
  exact Attempt.Yields.mono adds (fun value _ follows fine => follows (weaker value fine))
    (fun _ _ => id) (fun _ => id)

theorem adds_observe (fact : Assembly → α) :
    Adds (observe fact) state [] fun answer => answer = fact state.1 := ⟨.refl _, rfl⟩

theorem adds_require (check : Except Misuse α) :
    Adds (require check) state [] fun answer => check = .ok answer := by
  cases check with
  | ok value => exact ⟨.refl _, rfl⟩
  | error misuse => trivial

theorem adds_requireScope (scope : ScopeId) :
    Adds (requireScope scope) state [] fun _ => scope.index < state.1.scopes.length := by
  unfold Adds Attempt.Yields requireScope observe require Assembly.scope
  cases found : state.1.scopes[scope.index]? with
  | none => simp [Attempt.bind_apply, found]
  | some data =>
    simp only [Attempt.bind_apply, Attempt.observe_apply, found, Attempt.done_apply,
      Attempt.pure_apply]
    exact ⟨.refl _, (List.getElem?_eq_some_iff.mp found).1⟩

theorem adds_change {update : Assembly → Assembly}
    (follows : state.1.Follows (update state.1) acts) :
    Adds (change update) state acts fun _ => True := ⟨follows, trivial⟩

theorem adds_declare {entry : Entry} (source : entry.source = state.1.source) :
    Adds (declare entry) state [.provided entry.key entry.scope state.1.source] fun _ => True :=
  ⟨state.1.follows_declare source, trivial⟩

theorem adds_addScope (name : String) (parent : ScopeId) :
    Adds (addScope name parent) state [.opened] fun id => id = ⟨state.1.scopes.length⟩ := by
  unfold Adds Attempt.Yields addScope
  cases added : state.1.addScope name parent with
  | error misuse => trivial
  | ok grown =>
    exact ⟨Assembly.follows_addScope added, (Assembly.eq_joinScope_of_addScope added).1⟩

end Declaring

open Declaring

variable {state : Assembly × List Event}

/-- A checked provider is an entry under its key, in the scope, from the current source. -/
theorem Provider.entry_provided {provider : Provider} {scope : ScopeId} {assembly : Assembly}
    {entry : Entry} (checked : provider.entry scope assembly = .ok entry) :
    entry.provided = (provider.key, scope, assembly.source) := by
  cases provider with
  | given value key =>
    simp only [Provider.entry, bind, Except.bind, checkKeyType] at checked
    split at checked
    · cases checked
    · obtain rfl := Except.ok.inj checked
      rfl
  | typed output key dependencies factory =>
    simp only [Provider.entry, bind, Except.bind, checkKeyType] at checked
    split at checked
    · cases checked
    · obtain rfl := Except.ok.inj checked
      rfl
  | untyped key dependencies factory =>
    obtain rfl := Except.ok.inj checked
    rfl

theorem Adjustment.apply_provided {adjustment : Adjustment} {entry adjusted : Entry}
    (applied : adjustment.apply entry = .ok adjusted) : adjusted.provided = entry.provided := by
  cases adjustment with
  | choose mode =>
    simp only [Adjustment.apply] at applied
    split at applied
    · cases applied
    · obtain rfl := Except.ok.inj applied
      rfl
  | describe description =>
    obtain rfl := Except.ok.inj applied
    rfl

theorem adds_adjust (id : EntryId) (adjustments : List Adjustment) :
    Adds (adjust id adjustments) state [] fun _ => True := by
  induction adjustments generalizing state with
  | nil => exact ⟨.refl _, trivial⟩
  | cons adjustment rest ih =>
    unfold Adds adjust
    simp only [Attempt.yields_bind, Attempt.yields_observe, observe]
    cases found : state.1.entries[id.index]? with
    | none => exact ⟨.refl _, trivial⟩
    | some entry =>
      cases applied : adjustment.apply entry with
      | error misuse => simp [applied, require]
      | ok adjusted =>
        have follows := Assembly.follows_adjust found (Adjustment.apply_provided applied)
        have changed : Adds (change fun assembly =>
            { assembly with entries := assembly.entries.set id.index adjusted }) state [] fun _ =>
              True := ⟨follows, trivial⟩
        simp only [applied, require]
        exact changed.bind fun _ _ _ _ => ih

theorem adds_provide (provider : Provider) (adjustments : List Adjustment) (scope : ScopeId) :
    Adds (provider.declare adjustments scope) state
      [.provided provider.key scope state.1.source] fun _ => True := by
  apply (adds_observe _).bind
  rintro _ first one rfl
  apply (adds_require _).bind
  intro entry second two checked
  obtain ⟨key, home, source⟩ : entry.key = provider.key ∧ entry.scope = scope ∧
      entry.source = state.1.source := by
    simpa [Entry.provided] using Provider.entry_provided checked
  have follows := one.trans two
  have declared : Adds (declare entry) second
      [.provided provider.key scope state.1.source] fun _ => True := by
    rw [← key, ← home, ← follows.source]
    exact adds_declare (source.trans follows.source.symm)
  have adjusted (id : EntryId) (third : Assembly × List Event) :
      Adds (do adjust id adjustments; return Declared.provided id entry.key) third [] fun _ =>
        True := (adds_adjust id adjustments).returning fun _ => Declared.provided id entry.key
  exact declared.bind fun id third _ _ => adjusted id third

theorem adds_import (source : ImportSource) (ops : List ImportOp) {scope : ScopeId}
    (inside : scope.index < state.1.scopes.length) :
    Adds (declareImport source ops scope) state
      [.imported scope ⟨⟨source, ops⟩, state.1.source⟩] fun _ => True := by
  apply (adds_require _).bind
  intro spec first one made
  obtain rfl : spec = ⟨source, ops⟩ := by
    unfold ImportSpec.make at made
    cases checked : ImportSpec.checkAll ops with
    | error misuse => simp [checked, Except.map] at made
    | ok done => simpa [checked, Except.map, eq_comm] using made
  have recorded (after : Assembly × List Event) (follows : state.1.Follows after.1 []) :
      Adds (do change fun assembly => assembly.addImport scope ⟨source, ops⟩; return Declared.done)
        after [.imported scope ⟨⟨source, ops⟩, state.1.source⟩] fun _ => True := by
    have within : scope.index < after.1.scopes.length := by
      rw [follows.scopes]
      exact Nat.lt_add_right _ inside
    rw [← follows.source]
    exact (adds_change (after.1.follows_addImport within _)).returning fun _ => Declared.done
  cases source with
  | scope id =>
    exact (adds_requireScope id).bind fun _ second two _ => recorded second (one.trans two)
  | pool built => exact recorded first one

theorem adds_export (spec : Except Misuse ExportSpec) (scope : ScopeId) :
    Adds (declareExport spec scope) state [] fun _ => True := by
  apply (adds_require _).bind
  intro made first one _
  exact (adds_change (first.1.follows_addExport scope made)).returning fun _ => Declared.done

/-- A bundle adds itself and, on its own behalf, what it declares. -/
theorem adds_installing (bundle : Bundle) (scope : ScopeId)
    {configuring : Declaring (List Declared)} {acts : List Act} {fits : List Declared → Prop}
    (configures : ∀ within : Assembly × List Event, scope.index < within.1.scopes.length →
      within.1.config = state.1.config → within.1.scopes.length = state.1.scopes.length →
      within.1.source = some bundle.name → configuring.AddsIf fits within acts) :
    AddsIf fits (installing bundle scope configuring) state
      (.installed ⟨scope, bundle⟩ :: acts) := by
  apply (adds_requireScope scope).bindIf
  intro _ first one inside
  apply (adds_observe _).bindIf
  rintro _ second two rfl
  have follows := one.trans two
  have length : second.1.scopes.length = state.1.scopes.length := follows.scopes
  -- The source is another one until the bundle is left, so the steps in between count as one.
  change Attempt.Yields (configuring >>= fun steps => _) (second.1.enter scope bundle, second.2)
    _ _ _
  rw [Attempt.yields_bind]
  have adds := configures (second.1.enter scope bundle, second.2) (length ▸ inside) follows.config
    length rfl
  refine Attempt.Yields.mono adds ?_ (fun _ _ => id) (fun _ => id)
  intro steps third follows fine
  have left := (follows fine).installed (length ▸ inside)
  rwa [two.source] at left

mutual

/-- A declaration adds its acts, on behalf of the bundle that is the current source, when no panic
is caught meanwhile. -/
theorem Declaration.adds_apply (declaration : Declaration) (scope : ScopeId)
    (state : Assembly × List Event) (inside : scope.index < state.1.scopes.length) :
    AddsIf (fun answer => answer.isSmooth = true) (declaration.apply scope) state
      (declaration.acts state.1.config state.1.source scope state.1.scopes.length) := by
  match declaration with
  | .provide provider adjustments => exact (adds_provide provider adjustments scope).addsIf _
  | .importFrom source ops => exact (adds_import source ops inside).addsIf _
  | .exportKey key => exact (adds_export _ scope).addsIf _
  | .exportRenamed key exportAs => exact (adds_export _ scope).addsIf _
  | .exportAll => exact (adds_export _ scope).addsIf _
  | .install bundle configure =>
    apply (adds_observe _).bindIf
    rintro _ first one rfl
    have length : first.1.scopes.length = state.1.scopes.length := one.scopes
    refine AddsIf.returning (adds_installing bundle scope fun within _ config same source => ?_)
      fun _ smooth => smooth
    have adds := Declaration.adds_applyEach (configure state.1.config) scope within
      (by rwa [same, length])
    rwa [config, one.config, same, length, source] at adds
  | .link name bundle configure =>
    apply (adds_observe _).bindIf
    rintro _ first one rfl
    apply (adds_addScope name scope).bindIf
    rintro _ second two rfl
    have follows := one.trans two
    have length : first.1.scopes.length = state.1.scopes.length := one.scopes
    have longer : second.1.scopes.length = state.1.scopes.length + 1 := follows.scopes
    rw [length]
    refine AddsIf.returning
      (adds_installing bundle _ fun within inside config same source => ?_) fun _ smooth => smooth
    have adds := Declaration.adds_applyEach (configure state.1.config) _ within inside
    rwa [config, follows.config, same, longer, source] at adds
  | .locate =>
    apply (adds_observe _).bindIf
    intro name first one _
    exact ((adds_observe _).returning fun config => Declared.location scope name config).addsIf _
  | .panic message => trivial
  | .attempt declarations =>
    have adds := Declaration.adds_applyEach declarations scope state inside
    unfold AddsIf
    rw [Declaration.apply, Attempt.yields_bind, Attempt.yields_outcome]
    exact Attempt.Yields.mono adds (fun _ _ follows => follows) (fun _ _ _ => nofun) fun _ => id

/-- Declarations in turn add their acts, when no panic is caught meanwhile. -/
theorem Declaration.adds_applyEach (declarations : List Declaration) (scope : ScopeId)
    (state : Assembly × List Event) (inside : scope.index < state.1.scopes.length) :
    AddsIf (fun answers => Declared.areSmooth answers = true)
      (Declaration.applyEach declarations scope) state
      (Declaration.actsEach state.1.config declarations state.1.source scope
        state.1.scopes.length) := by
  match declarations with
  | [] => exact fun _ => .refl _
  | declaration :: rest =>
    unfold AddsIf
    rw [Declaration.applyEach, Attempt.yields_bind]
    refine Attempt.Yields.mono (Declaration.adds_apply declaration scope state inside) ?_
      (fun _ _ => id) fun _ => id
    intro first middle follows
    rw [Attempt.yields_bind]
    by_cases smooth : first.isSmooth = true
    · have one := follows smooth
      have others := Declaration.adds_applyEach rest scope middle
        (by rw [one.scopes]; exact Nat.lt_add_right _ inside)
      rw [one.config, one.source, one.scopes] at others
      refine Attempt.Yields.mono others (fun answers after two fine => ?_) (fun _ _ => id)
        fun _ => id
      exact one.trans (two (Bool.and_eq_true_iff.mp fine).2)
    · have others : (Declaration.applyEach rest scope).Gives fun _ => True :=
        Attempt.gives_of_forall _ fun _ => trivial
      refine (others middle).mono (fun answers _ _ => ?_) (fun _ _ => id) fun _ => id
      exact fun fine => absurd (Bool.and_eq_true_iff.mp fine).1 smooth

end

/-- A declaration in a scope that must exist adds its acts. -/
theorem adds_declareIn (scope : ScopeId) (declaration : Declaration) :
    AddsIf (fun answer => answer.isSmooth = true) (declareIn scope declaration) state
      (declaration.acts state.1.config state.1.source scope state.1.scopes.length) := by
  apply (adds_requireScope scope).bindIf
  intro _ after follows inside
  have length : after.1.scopes.length = state.1.scopes.length := follows.scopes
  have adds := declaration.adds_apply scope after (by rwa [length])
  rwa [follows.config, follows.source, length] at adds

end Wiring
