import Wiring.Proofs.WellFormed

/-!
Declarations keep an assembly well formed, whether they are accepted, refused or broken off. The
pools from which they import must be among those offered.
-/

namespace Wiring

mutual

/-- Every built pool from which the declaration imports is among those offered, whatever the
configuration. -/
def Declaration.Draws (offered : Pool → Prop) : Declaration → Prop
  | .provide _ _ => True
  | .importFrom source _ => ∀ pool, source = .pool pool → offered pool
  | .exportKey _ => True
  | .exportRenamed _ _ => True
  | .exportAll => True
  | .install _ configure => ∀ config, Declaration.DrawsEach offered (configure config)
  | .link _ _ configure => ∀ config, Declaration.DrawsEach offered (configure config)
  | .locate => True
  | .panic _ => True
  | .attempt declarations => Declaration.DrawsEach offered declarations

/-- Every declaration imports from offered pools. -/
def Declaration.DrawsEach (offered : Pool → Prop) : List Declaration → Prop
  | [] => True
  | declaration :: rest => declaration.Draws offered ∧ Declaration.DrawsEach offered rest

end

namespace Declaring

variable {offered : Pool → Prop} {α β : Type} {state : Assembly × List Event}

/-- Whatever comes of the declaring, the assembly goes on well formed, and an answer has the
property. -/
def Keeps (offered : Pool → Prop) (declaring : Declaring α) (state : Assembly × List Event)
    (given : α → Assembly → Prop) : Prop :=
  declaring.Yields state
    (fun value after => state.1.Advances offered after.1 ∧ given value after.1)
    (fun _ after => state.1.Advances offered after.1)
    (fun after => state.1.Advances offered after.1)

theorem Keeps.bind {declaring : Declaring α} {next : α → Declaring β}
    {given : α → Assembly → Prop} {last : β → Assembly → Prop}
    (keeps : declaring.Keeps offered state given)
    (onward : ∀ value (after : Assembly × List Event), state.1.Advances offered after.1 →
      given value after.1 → (next value).Keeps offered after last) :
    Keeps offered (declaring >>= next) state last := by
  unfold Keeps
  rw [Attempt.yields_bind]
  refine Attempt.Yields.mono keeps ?_ (fun _ _ => id) (fun _ => id)
  intro value after yielded
  obtain ⟨advances, fits⟩ := yielded
  exact (onward value after advances fits).mono
    (fun _ _ further => ⟨advances.trans further.1, further.2⟩)
    (fun _ _ further => advances.trans further) (fun _ further => advances.trans further)

theorem Keeps.mono {declaring : Declaring α} {given given' : α → Assembly → Prop}
    (keeps : declaring.Keeps offered state given)
    (weaker : ∀ value (after : Assembly), state.1.Advances offered after → given value after →
      given' value after) :
    declaring.Keeps offered state given' :=
  Attempt.Yields.mono keeps (fun value after further =>
    ⟨further.1, weaker value after.1 further.1 further.2⟩) (fun _ _ => id) (fun _ => id)

section

variable (wellFormed : state.1.WellFormed offered)

include wellFormed

theorem keeps_pure (value : α) : Keeps offered (pure value) state fun answer _ => answer = value :=
  ⟨wellFormed.advances, rfl⟩

theorem keeps_observe (fact : Assembly → α) :
    Keeps offered (observe fact) state fun answer _ => answer = fact state.1 :=
  ⟨wellFormed.advances, rfl⟩

theorem keeps_report (event : Event) : Keeps offered (report event) state fun _ _ => True :=
  ⟨wellFormed.advances, trivial⟩

theorem keeps_require (check : Except Misuse α) :
    Keeps offered (require check) state fun answer _ => check = .ok answer := by
  unfold Keeps require
  cases check with
  | ok value => exact ⟨wellFormed.advances, rfl⟩
  | error misuse => exact wellFormed.advances

theorem keeps_requireScope (scope : ScopeId) :
    Keeps offered (requireScope scope) state fun _ after =>
      scope.index < after.scopes.length := by
  apply (keeps_observe wellFormed _).bind
  rintro _ after advances rfl
  apply (keeps_require advances.wellFormed _).bind
  intro found last onward checked
  apply (keeps_pure onward.wellFormed ()).mono
  intro _ final further _
  unfold Assembly.scope at checked
  split at checked
  · rename_i place
    exact Nat.lt_of_lt_of_le (List.getElem?_eq_some_iff.mp place).1
      ((advances.trans (onward.trans further)).scopes)
  · cases checked

end

/-- A change that lets the assembly advance. -/
theorem keeps_change {update : Assembly → Assembly}
    (advances : state.1.Advances offered (update state.1)) :
    Keeps offered (change update) state fun _ _ => True :=
  ⟨advances, trivial⟩

theorem keeps_declare (wellFormed : state.1.WellFormed offered) {entry : Entry}
    (proper : entry.Proper) (inside : entry.scope.index < state.1.scopes.length) :
    Keeps offered (declare entry) state fun _ _ => True :=
  ⟨wellFormed.declare proper inside, trivial⟩

theorem keeps_addScope (wellFormed : state.1.WellFormed offered) (name : String)
    (parent : ScopeId) :
    Keeps offered (addScope name parent) state fun id after =>
      id.index < after.scopes.length := by
  unfold Keeps Attempt.Yields addScope
  cases added : state.1.addScope name parent with
  | error misuse => exact wellFormed.advances
  | ok grown => exact wellFormed.addScope added

end Declaring

open Declaring

variable {offered : Pool → Prop} {state : Assembly × List Event}

/-- A checked provider is an entry in order, in the scope for which it was checked. -/
theorem Provider.entry_proper {provider : Provider} {scope : ScopeId} {assembly : Assembly}
    {entry : Entry} (checked : provider.entry scope assembly = .ok entry) :
    entry.Proper ∧ entry.scope = scope := by
  cases provider with
  | given value key =>
    simp only [Provider.entry, bind, Except.bind, checkKeyType] at checked
    split at checked
    · cases checked
    · rename_i right
      split at right
      · rename_i same
        obtain rfl := Except.ok.inj checked
        exact ⟨⟨same.symm, rfl, rfl⟩, rfl⟩
      · cases right
  | typed output key dependencies factory =>
    simp only [Provider.entry, bind, Except.bind, checkKeyType] at checked
    split at checked
    · cases checked
    · obtain rfl := Except.ok.inj checked
      exact ⟨trivial, rfl⟩
  | untyped key dependencies factory =>
    obtain rfl := Except.ok.inj checked
    exact ⟨trivial, rfl⟩

/-- An adjustment keeps an entry in order and in its scope. -/
theorem Adjustment.apply_proper {adjustment : Adjustment} {entry adjusted : Entry}
    (applied : adjustment.apply entry = .ok adjusted) :
    (entry.Proper → adjusted.Proper) ∧ adjusted.scope = entry.scope := by
  cases adjustment with
  | choose mode =>
    simp only [Adjustment.apply] at applied
    split at applied
    · cases applied
    · rename_i allowed
      obtain rfl := Except.ok.inj applied
      refine ⟨fun proper => ?_, rfl⟩
      unfold Entry.Proper at proper ⊢
      cases origin : entry.origin with
      | given handle =>
        rw [origin] at proper
        obtain rfl : mode = .constant := by simpa [origin, Origin.kind] using allowed
        exact ⟨proper.1, rfl, proper.2.2⟩
      | made factory => trivial
      | delegate target => rwa [origin] at proper
  | describe description =>
    obtain rfl := Except.ok.inj applied
    exact ⟨fun proper => proper, rfl⟩

theorem keeps_adjust (wellFormed : state.1.WellFormed offered) (id : EntryId)
    (adjustments : List Adjustment) :
    Keeps offered (adjust id adjustments) state fun _ _ => True := by
  induction adjustments generalizing state with
  | nil => exact (keeps_pure wellFormed ()).mono fun _ _ _ _ => trivial
  | cons adjustment rest ih =>
    unfold adjust
    have looked : Keeps offered (observe fun assembly => assembly.entries[id.index]?) state
        fun answer after => answer = after.entries[id.index]? ∧ after.WellFormed offered :=
      ⟨wellFormed.advances, rfl, wellFormed⟩
    apply looked.bind
    rintro answer after - ⟨rfl, wellFormed⟩
    split
    · exact (keeps_pure wellFormed ()).mono fun _ _ _ _ => trivial
    · rename_i entry found
      have checked : Keeps offered (require (adjustment.apply entry)) after
          fun adjusted assembly => assembly = after.1 ∧ adjustment.apply entry = .ok adjusted := by
        unfold Keeps require
        cases adjustment.apply entry with
        | ok value => exact ⟨wellFormed.advances, rfl, rfl⟩
        | error misuse => exact wellFormed.advances
      apply checked.bind
      rintro adjusted middle - ⟨same, applied⟩
      obtain ⟨proper, scope⟩ := Adjustment.apply_proper applied
      have advances := wellFormed.set found proper scope
      rw [← same] at advances
      apply (keeps_change advances).bind
      intro _ last onward _
      exact ih onward.wellFormed

theorem keeps_provide (wellFormed : state.1.WellFormed offered) (provider : Provider)
    (adjustments : List Adjustment) {scope : ScopeId}
    (inside : scope.index < state.1.scopes.length) :
    Keeps offered (provider.declare adjustments scope) state fun _ _ => True := by
  apply (keeps_observe wellFormed _).bind
  rintro _ first one rfl
  apply (keeps_require one.wellFormed _).bind
  intro entry second two checked
  obtain ⟨proper, rfl⟩ := Provider.entry_proper checked
  apply (keeps_declare two.wellFormed proper
    (Nat.lt_of_lt_of_le inside (one.trans two).scopes)).bind
  intro id third three _
  apply (keeps_adjust three.wellFormed id adjustments).bind
  intro _ fourth four _
  exact (keeps_pure four.wellFormed _).mono fun _ _ _ _ => trivial

theorem keeps_import (wellFormed : state.1.WellFormed offered) {source : ImportSource}
    (draws : ∀ pool, source = .pool pool → offered pool) (ops : List ImportOp) (scope : ScopeId) :
    Keeps offered (declareImport source ops scope) state fun _ _ => True := by
  apply (keeps_require wellFormed _).bind
  intro spec first one made
  obtain ⟨proper, from_source⟩ : spec.Proper offered ∧ spec.source = source := by
    unfold ImportSpec.make at made
    cases checked : ImportSpec.checkAll ops with
    | error misuse => simp [checked, Except.map] at made
    | ok done =>
      simp only [checked, Except.map, Except.ok.injEq] at made
      subst made
      exact ⟨⟨checked, draws⟩, rfl⟩
  have recorded (after : Assembly × List Event) (wellFormed : after.1.WellFormed offered)
      (exists_source : ∀ id, spec.source = .scope id → id.index < after.1.scopes.length) :
      Keeps offered
        (do change fun assembly => assembly.addImport scope spec; return Declared.done) after
        fun _ _ => True := by
    apply (keeps_change (wellFormed.addImport scope proper exists_source)).bind
    intro _ last onward _
    exact (keeps_pure onward.wellFormed _).mono fun _ _ _ _ => trivial
  cases source with
  | scope id =>
    apply (keeps_requireScope one.wellFormed id).bind
    intro _ second two inside
    refine recorded second two.wellFormed fun other same => ?_
    rw [from_source, ImportSource.scope.injEq] at same
    exact same ▸ inside
  | pool built =>
    refine recorded first one.wellFormed fun other same => ?_
    rw [from_source] at same
    cases same

theorem keeps_export (wellFormed : state.1.WellFormed offered) {spec : Except Misuse ExportSpec}
    (proper : ∀ made, spec = .ok made → made.Proper) (scope : ScopeId) :
    Keeps offered (declareExport spec scope) state fun _ _ => True := by
  apply (keeps_require wellFormed _).bind
  intro made first one checked
  apply (keeps_change (one.wellFormed.addExport scope (proper made checked))).bind
  intro _ second two _
  exact (keeps_pure two.wellFormed _).mono fun _ _ _ _ => trivial

/-- A bundle keeps what its own declarations keep. -/
theorem keeps_installing (wellFormed : state.1.WellFormed offered) (bundle : Bundle)
    (scope : ScopeId) {configuring : Declaring (List Declared)}
    (configures : ∀ state : Assembly × List Event, state.1.WellFormed offered →
      scope.index < state.1.scopes.length → Keeps offered configuring state fun _ _ => True) :
    Keeps offered (installing bundle scope configuring) state fun _ _ => True := by
  apply (keeps_requireScope wellFormed scope).bind
  intro _ first one inside
  apply (keeps_observe one.wellFormed _).bind
  intro source second two _
  have entered : second.1.Advances offered (second.1.enter scope bundle) :=
    ⟨⟨⟨two.wellFormed.toFramed, two.wellFormed.entries, two.wellFormed.placed,
      two.wellFormed.listed⟩, two.wellFormed.tree⟩, rfl, Nat.le_refl _⟩
  apply (keeps_change entered).bind
  intro _ third three _
  apply (configures third three.wellFormed
    (Nat.lt_of_lt_of_le inside (two.trans three).scopes)).bind
  intro steps fourth four _
  have restored : fourth.1.Advances offered { fourth.1 with source := source } :=
    ⟨⟨⟨four.wellFormed.toFramed, four.wellFormed.entries, four.wellFormed.placed,
      four.wellFormed.listed⟩, four.wellFormed.tree⟩, rfl, Nat.le_refl _⟩
  apply (keeps_change restored).bind
  intro _ fifth five _
  apply (keeps_observe five.wellFormed _).bind
  intro name sixth six _
  apply (keeps_report six.wellFormed _).bind
  intro _ seventh seven _
  exact (keeps_pure seven.wellFormed _).mono fun _ _ _ _ => trivial

mutual

/-- A declaration keeps the assembly well formed. -/
theorem Declaration.keeps_apply (declaration : Declaration) (draws : declaration.Draws offered)
    (scope : ScopeId) (state : Assembly × List Event) (wellFormed : state.1.WellFormed offered)
    (inside : scope.index < state.1.scopes.length) :
    Keeps offered (declaration.apply scope) state fun _ _ => True := by
  match declaration with
  | .provide provider adjustments =>
    exact keeps_provide wellFormed provider adjustments inside
  | .importFrom source ops => exact keeps_import wellFormed draws ops scope
  | .exportKey key =>
    refine keeps_export wellFormed ?_ scope
    intro _ same
    cases same
    rfl
  | .exportRenamed key exportAs =>
    refine keeps_export wellFormed ?_ scope
    intro made checked
    unfold ExportSpec.rebound at checked
    split at checked
    · rename_i same
      obtain rfl := Except.ok.inj checked
      exact Key.sameType_iff.mp same
    · cases checked
  | .exportAll =>
    refine keeps_export wellFormed ?_ scope
    intro _ same
    cases same
    trivial
  | .install bundle configure =>
    apply (keeps_observe wellFormed _).bind
    intro config first one _
    refine (keeps_installing one.wellFormed bundle scope ?_).bind ?_
    · intro inner fine within
      exact Declaration.keeps_applyEach (configure config) (draws config) scope inner fine within
    · intro steps second two _
      exact (keeps_pure two.wellFormed _).mono fun _ _ _ _ => trivial
  | .link name bundle configure =>
    apply (keeps_observe wellFormed _).bind
    intro config first one _
    apply (keeps_addScope one.wellFormed name scope).bind
    intro child second two _
    refine (keeps_installing two.wellFormed bundle child ?_).bind ?_
    · intro inner fine within
      exact Declaration.keeps_applyEach (configure config) (draws config) child inner fine within
    · intro steps third three _
      exact (keeps_pure three.wellFormed _).mono fun _ _ _ _ => trivial
  | .locate =>
    apply (keeps_observe wellFormed _).bind
    intro name first one _
    apply (keeps_observe one.wellFormed _).bind
    intro config second two _
    exact (keeps_pure two.wellFormed _).mono fun _ _ _ _ => trivial
  | .panic message => exact wellFormed.advances
  | .attempt declarations =>
    have keeps := Declaration.keeps_applyEach declarations draws scope state wellFormed inside
    unfold Keeps
    rw [Declaration.apply, Attempt.yields_bind, Attempt.yields_outcome]
    exact Attempt.Yields.mono keeps (fun _ _ kept => kept) (fun _ _ advances => ⟨advances, trivial⟩)
      fun _ => id

/-- Declarations in turn keep the assembly well formed. -/
theorem Declaration.keeps_applyEach (declarations : List Declaration)
    (draws : Declaration.DrawsEach offered declarations) (scope : ScopeId)
    (state : Assembly × List Event) (wellFormed : state.1.WellFormed offered)
    (inside : scope.index < state.1.scopes.length) :
    Keeps offered (Declaration.applyEach declarations scope) state fun _ _ => True := by
  match declarations with
  | [] => exact (keeps_pure wellFormed _).mono fun _ _ _ _ => trivial
  | declaration :: rest =>
    apply (Declaration.keeps_apply declaration draws.1 scope state wellFormed inside).bind
    intro first middle one _
    apply (Declaration.keeps_applyEach rest draws.2 scope middle one.wellFormed
      (Nat.lt_of_lt_of_le inside one.scopes)).bind
    intro others last two _
    exact (keeps_pure two.wellFormed _).mono fun _ _ _ _ => trivial

end

/-- A declaration in any scope keeps the assembly well formed. -/
theorem keeps_declareIn (wellFormed : state.1.WellFormed offered) {declaration : Declaration}
    (draws : declaration.Draws offered) (scope : ScopeId) :
    Keeps offered (declareIn scope declaration) state fun _ _ => True := by
  apply (keeps_requireScope wellFormed scope).bind
  intro _ after advances inside
  exact Declaration.keeps_apply declaration draws scope after advances.wellFormed inside

end Wiring
