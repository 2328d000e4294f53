import Wiring.Proofs.Changes
import Wiring.Stock

/-!
Misuse changes nothing. Each call on an assembly is checked before anything is declared, so a call
that is refused leaves the assembly as it found it, and the caller can go on as if it had not been
made. A call that consists of others, as the installation of a bundle does, is refused only for its
own mistake, before its first change, or for that of one of the others, which changes nothing
either.
-/

namespace Wiring

/-- A call on an assembly, by the caller or by a bundle. -/
inductive Request where
  | addScope (name : String) (parent : ScopeId)
  /-- The scope is to be declared into. -/
  | configure (scope : ScopeId)
  | declare (declaration : Declaration) (scope : ScopeId)
  /-- A provider that was declared is changed. -/
  | adjust (entry : EntryId) (adjustment : Adjustment)

/-- A provider stands under a key that names a type other than that of its values. -/
inductive Provider.Mistyped : Provider → ServiceType → Key → Prop
  | given {value : Value} {key : Key} (different : key.type ≠ value.type) :
      Mistyped (.given value (some key)) value.type key
  | typed {output : ServiceType} {key : Key} (dependencies : List Key) (factory : Factory)
      (different : key.type ≠ output) :
      Mistyped (.typed output (some key) dependencies factory) output key

namespace Request

/-- What a call does. -/
def perform : Request → Declaring Unit
  | .addScope name parent => do
    let _ ← Declaring.addScope name parent
    return ()
  | .configure scope => Declaring.requireScope scope
  | .declare declaration scope => do
    let _ ← declaration.apply scope
    return ()
  | .adjust entry adjustment => Wiring.adjust entry [adjustment]

/-- A call is a mistake in an assembly. -/
inductive Misuses (assembly : Assembly) : Request → Misuse → Prop
  | parent {parent : ScopeId} (name : String)
      (unknown : assembly.scopes[parent.index]? = none) :
      Misuses assembly (.addScope name parent) (.unknownScope parent assembly.config.name)
  | taken {parent : ScopeId} {above other : Scope} {name : String}
      (found : assembly.scopes[parent.index]? = some above) (among : other ∈ assembly.scopes)
      (same : other.name = Assembly.childName above name) :
      Misuses assembly (.addScope name parent) (.scopeTaken (Assembly.childName above name))
  | link {parent : ScopeId} {name : String} {misuse : Misuse} (bundle : Bundle)
      (configure : Config → List Declaration)
      (misuses : Misuses assembly (.addScope name parent) misuse) :
      Misuses assembly (.declare (.link name bundle configure) parent) misuse
  | configure {scope : ScopeId} (unknown : assembly.scopes[scope.index]? = none) :
      Misuses assembly (.configure scope) (.unknownScope scope assembly.config.name)
  | install {scope : ScopeId} (bundle : Bundle) (configure : Config → List Declaration)
      (unknown : assembly.scopes[scope.index]? = none) :
      Misuses assembly (.declare (.install bundle configure) scope)
        (.unknownScope scope assembly.config.name)
  | key {provider : Provider} {type : ServiceType} {key : Key} (adjustments : List Adjustment)
      (scope : ScopeId) (mistyped : provider.Mistyped type key) :
      Misuses assembly (.declare (.provide provider adjustments) scope) (.wrongKeyType type key)
  | mode {entry : Entry} {id : EntryId} {mode : InstantiationMode}
      (found : assembly.entries[id.index]? = some entry) (given : entry.origin.kind = .given)
      (other : mode ≠ .constant) :
      Misuses assembly (.adjust id (.choose mode)) (.instanceMode entry.key mode)
  | rebind {before : List ImportOp} {renamed target : Key} (source : ImportSource)
      (rest : List ImportOp) (scope : ScopeId) (fine : ImportSpec.checkAll before = .ok ())
      (different : renamed.type ≠ target.type) :
      Misuses assembly
        (.declare (.importFrom source (before ++ .rebind renamed target :: rest)) scope)
        (.rebindAcrossTypes renamed target)
  | source {source : ScopeId} {ops : List ImportOp} (scope : ScopeId)
      (fine : ImportSpec.checkAll ops = .ok ())
      (unknown : assembly.scopes[source.index]? = none) :
      Misuses assembly (.declare (.importFrom (.scope source) ops) scope)
        (.unknownScope source assembly.config.name)
  | exportAs {key exportAs : Key} (scope : ScopeId) (different : key.type ≠ exportAs.type) :
      Misuses assembly (.declare (.exportRenamed key exportAs) scope)
        (.exportAcrossTypes key exportAs)
  /-- The caller panics of its own. -/
  | raised (message : String) (scope : ScopeId) :
      Misuses assembly (.declare (.panic message) scope) (.raised message)

/-- While a call is carried out from one state, another one is made in the second state: the call
itself, or one of those of which it consists. Calls whose panic would be caught are left out, as
they refuse nothing. -/
inductive Makes : Request → Assembly × List Event → Request → Assembly × List Event → Prop
  | self (request : Request) (state : Assembly × List Event) : Makes request state request state
  | adjust {provider : Provider} {before : List Adjustment} {scope : ScopeId} {id : EntryId}
      {key : Key} {state middle : Assembly × List Event} (adjustment : Adjustment)
      (rest : List Adjustment)
      (declared : provider.declare before scope state = (.value (.provided id key), middle)) :
      Makes (.declare (.provide provider (before ++ adjustment :: rest)) scope) state
        (.adjust id adjustment) middle
  | install {bundle : Bundle} {configure : Config → List Declaration} {scope : ScopeId}
      {before rest : List Declaration} {declaration : Declaration} {answers : List Declared}
      {request : Request} {state middle last : Assembly × List Event}
      (inside : scope.index < state.1.scopes.length)
      (declares : configure state.1.config = before ++ declaration :: rest)
      (declared : Declaration.applyEach before scope (state.1.enter scope bundle, state.2) =
        (.value answers, middle))
      (makes : Makes (.declare declaration scope) middle request last) :
      Makes (.declare (.install bundle configure) scope) state request last
  | link {name : String} {bundle : Bundle} {configure : Config → List Declaration}
      {parent child : ScopeId} {grown : Assembly} {before rest : List Declaration}
      {declaration : Declaration} {answers : List Declared} {request : Request}
      {state middle last : Assembly × List Event}
      (added : state.1.addScope name parent = .ok (child, grown))
      (declares : configure state.1.config = before ++ declaration :: rest)
      (declared : Declaration.applyEach before child (grown.enter child bundle, state.2) =
        (.value answers, middle))
      (makes : Makes (.declare declaration child) middle request last) :
      Makes (.declare (.link name bundle configure) parent) state request last

end Request

section Checks

variable {assembly : Assembly} {misuse : Misuse}

theorem Assembly.scope_error_iff {scope : ScopeId} : assembly.scope scope = .error misuse ↔
    assembly.scopes[scope.index]? = none ∧
      misuse = .unknownScope scope assembly.config.name := by
  unfold Assembly.scope
  cases assembly.scopes[scope.index]? with
  | none => simp [eq_comm]
  | some data => simp

/-- A new scope is refused when there is no parent, or when there is a scope of its path. -/
theorem Assembly.addScope_error_iff {name : String} {parent : ScopeId} :
    assembly.addScope name parent = .error misuse ↔
      (Request.addScope name parent).Misuses assembly misuse := by
  unfold Assembly.addScope Assembly.scope
  constructor
  · cases found : assembly.scopes[parent.index]? with
    | none =>
      rintro ⟨⟩
      exact .parent name found
    | some above =>
      dsimp only
      split
      · rename_i taken
        rintro ⟨⟩
        obtain ⟨other, among, same⟩ := List.any_eq_true.mp taken
        exact .taken found among (beq_iff_eq.mp same)
      · nofun
  · intro misuses
    cases misuses with
    | parent name unknown => rw [unknown]
    | taken found among same =>
      have taken : (assembly.scopes.any fun other => other.name == childName _ name) = true :=
        List.any_eq_true.mpr ⟨_, among, beq_iff_eq.mpr same⟩
      rw [found]
      exact if_pos taken

theorem checkKeyType_error_iff {type : ServiceType} {key : Key} :
    checkKeyType type key = .error misuse ↔ key.type ≠ type ∧ misuse = .wrongKeyType type key := by
  unfold checkKeyType
  by_cases same : key.type = type <;> simp [same, eq_comm]

/-- A provider is refused when it is mistyped. -/
theorem Provider.entry_error_iff {provider : Provider} {scope : ScopeId} :
    provider.entry scope assembly = .error misuse ↔
      ∃ type key, provider.Mistyped type key ∧ misuse = .wrongKeyType type key := by
  have checked {type : ServiceType} {key : Key} {make : Unit → Entry} :
      (do let fine ← checkKeyType type key; return make fine) = .error misuse ↔
        key.type ≠ type ∧ misuse = .wrongKeyType type key := by
    rw [← checkKeyType_error_iff]
    cases checkKeyType type key <;> simp [bind, Except.bind, pure, Except.pure]
  constructor
  · intro refused
    cases provider with
    | given value key =>
      obtain ⟨different, rfl⟩ := checked.mp refused
      cases key with
      | none => exact absurd rfl different
      | some key => exact ⟨_, _, .given different, rfl⟩
    | typed output key dependencies factory =>
      obtain ⟨different, rfl⟩ := checked.mp refused
      cases key with
      | none => exact absurd rfl different
      | some key => exact ⟨_, _, .typed dependencies factory different, rfl⟩
    | untyped key dependencies factory => cases refused
  · rintro ⟨type, key, mistyped, rfl⟩
    cases mistyped with
    | given different => exact checked.mpr ⟨different, rfl⟩
    | typed dependencies factory different => exact checked.mpr ⟨different, rfl⟩

/-- An instance refuses every mode but constant. -/
theorem Adjustment.apply_error_iff {adjustment : Adjustment} {entry : Entry} :
    adjustment.apply entry = .error misuse ↔
      ∃ mode, adjustment = .choose mode ∧ entry.origin.kind = .given ∧ mode ≠ .constant ∧
        misuse = .instanceMode entry.key mode := by
  cases adjustment with
  | describe description => simp [Adjustment.apply]
  | choose mode =>
    by_cases refused : entry.origin.kind = .given ∧ mode ≠ .constant
    · simp [Adjustment.apply, refused, eq_comm]
    · simp only [Adjustment.apply, if_neg refused]
      constructor
      · intro accepted
        cases accepted
      · rintro ⟨other, same, given, different, -⟩
        obtain rfl := Adjustment.choose.inj same
        exact absurd ⟨given, different⟩ refused

theorem ImportOp.check_error_iff {op : ImportOp} : op.check = .error misuse ↔
    ∃ renamed target, op = .rebind renamed target ∧ renamed.type ≠ target.type ∧
      misuse = .rebindAcrossTypes renamed target := by
  cases op with
  | rebind renamed target =>
    by_cases same : renamed.sameType target = true
    · simp [ImportOp.check, same, Key.sameType_iff.mp same]
    · have different := mt Key.sameType_iff.mpr same
      constructor
      · intro refused
        rw [ImportOp.check, if_neg same] at refused
        exact ⟨renamed, target, rfl, different, (Except.error.inj refused).symm⟩
      · rintro ⟨renamed, target, ⟨⟩, -, rfl⟩
        exact if_neg same
  | exclude key => simp [ImportOp.check]
  | retain keys => simp [ImportOp.check]
  | filter accepts => simp [ImportOp.check]

/-- The steps of an import are refused for the first one that renames across types. -/
theorem ImportSpec.checkAll_error_iff {ops : List ImportOp} :
    ImportSpec.checkAll ops = .error misuse ↔
      ∃ before renamed target rest, ops = before ++ .rebind renamed target :: rest ∧
        ImportSpec.checkAll before = .ok () ∧ renamed.type ≠ target.type ∧
        misuse = .rebindAcrossTypes renamed target := by
  induction ops with
  | nil => simp [ImportSpec.checkAll]
  | cons op ops ih =>
    rw [ImportSpec.checkAll]
    cases checked : op.check with
    | ok _ =>
      dsimp only
      rw [ih]
      constructor
      · rintro ⟨before, renamed, target, rest, rfl, fine, different, rfl⟩
        refine ⟨op :: before, renamed, target, rest, rfl, ?_, different, rfl⟩
        rw [ImportSpec.checkAll, checked]
        exact fine
      · rintro ⟨before, renamed, target, rest, split, fine, different, rfl⟩
        cases before with
        | nil =>
          obtain ⟨rfl, -⟩ := List.cons.inj split
          simp [ImportOp.check, Key.sameType, different] at checked
        | cons first before =>
          obtain ⟨rfl, onward⟩ := List.cons.inj split
          rw [ImportSpec.checkAll, checked] at fine
          exact ⟨before, renamed, target, rest, onward, fine, different, rfl⟩
    | error first =>
      dsimp only
      constructor
      · rintro ⟨⟩
        obtain ⟨renamed, target, rfl, different, rfl⟩ := ImportOp.check_error_iff.mp checked
        exact ⟨[], renamed, target, ops, rfl, rfl, different, rfl⟩
      · rintro ⟨before, renamed, target, rest, split, fine, different, rfl⟩
        cases before with
        | nil =>
          obtain ⟨rfl, -⟩ := List.cons.inj split
          rw [← checked]
          exact ImportOp.check_error_iff.mpr ⟨_, _, rfl, different, rfl⟩
        | cons other before =>
          obtain ⟨rfl, -⟩ := List.cons.inj split
          rw [ImportSpec.checkAll, checked] at fine
          cases fine

theorem ImportSpec.make_error_iff {source : ImportSource} {ops : List ImportOp} :
    ImportSpec.make source ops = .error misuse ↔ ImportSpec.checkAll ops = .error misuse := by
  unfold ImportSpec.make
  cases ImportSpec.checkAll ops <;> simp [Except.map]

theorem ImportSpec.checkAll_of_make {source : ImportSource} {ops : List ImportOp}
    {spec : ImportSpec} (made : ImportSpec.make source ops = .ok spec) :
    ImportSpec.checkAll ops = .ok () := by
  cases checked : ImportSpec.checkAll ops with
  | ok _ => rfl
  | error misuse => cases made.symm.trans (ImportSpec.make_error_iff.mpr checked)

theorem ExportSpec.rebound_error_iff {key exportAs : Key} :
    ExportSpec.rebound key exportAs = .error misuse ↔
      key.type ≠ exportAs.type ∧ misuse = .exportAcrossTypes key exportAs := by
  unfold ExportSpec.rebound
  split
  · rename_i same
    simp [Key.sameType_iff.mp same]
  · rename_i different
    simp [mt Key.sameType_iff.mpr different, eq_comm]

end Checks

/-- What an attempt gives is given by a run of it. -/
theorem Attempt.Yields.ran {σ ε α : Type} {attempt : Attempt σ ε α} {state : σ}
    {given : α → σ → Prop} {failed : ε → σ → Prop} {broken : σ → Prop}
    (yields : attempt.Yields state given failed broken) :
    attempt.Yields state (fun value after => attempt state = (.value value, after))
      failed broken := by
  unfold Yields at yields ⊢
  rcases found : attempt state with ⟨ending, after⟩
  rw [found] at yields
  cases ending with
  | value value => rfl
  | error error => exact yields
  | panic message => exact yields
  | exhausted => exact yields

namespace Declaring

variable {α : Type} {state : Assembly × List Event} {failed : Misuse → Assembly × List Event → Prop}
  {broken : Assembly × List Event → Prop}

@[simp] theorem observe_apply (fact : Assembly → α) :
    observe fact state = (.value (fact state.1), state) := rfl

@[simp] theorem change_apply (update : Assembly → Assembly) :
    change update state = (.value (), update state.1, state.2) := rfl

@[simp] theorem declare_apply (entry : Entry) : declare entry state =
    (.value (state.1.declare entry).1, (state.1.declare entry).2, state.2) := rfl

@[simp] theorem require_ok (value : α) : require (.ok value) state = (.value value, state) := rfl

@[simp] theorem require_error (misuse : Misuse) :
    (require (.error misuse) : Declaring α) state = (.error misuse, state) := rfl

@[simp] theorem yields_observe (fact : Assembly → α) {given : α → Assembly × List Event → Prop} :
    (observe fact).Yields state given failed broken ↔ given (fact state.1) state := Iff.rfl

@[simp] theorem yields_change (update : Assembly → Assembly)
    {given : Unit → Assembly × List Event → Prop} :
    (change update).Yields state given failed broken ↔ given () (update state.1, state.2) := Iff.rfl

@[simp] theorem yields_declare (entry : Entry) {given : EntryId → Assembly × List Event → Prop} :
    (declare entry).Yields state given failed broken ↔
      given (state.1.declare entry).1 ((state.1.declare entry).2, state.2) := Iff.rfl

theorem yields_require {check : Except Misuse α} {given : α → Assembly × List Event → Prop}
    (fine : ∀ value, check = .ok value → given value state)
    (refused : ∀ misuse, check = .error misuse → failed misuse state) :
    (require check).Yields state given failed broken := by
  cases check with
  | ok value => exact fine value rfl
  | error misuse => exact refused misuse rfl

theorem yields_requireScope {scope : ScopeId} {given : Unit → Assembly × List Event → Prop}
    (known : scope.index < state.1.scopes.length → given () state)
    (unknown : state.1.scopes[scope.index]? = none →
      failed (.unknownScope scope state.1.config.name) state) :
    (requireScope scope).Yields state given failed broken := by
  rw [requireScope, Attempt.yields_bind, yields_observe, Attempt.yields_bind]
  refine yields_require (fun data found => known ?_) fun misuse refused => ?_
  · unfold Assembly.scope at found
    split at found
    · rename_i place
      exact (List.getElem?_eq_some_iff.mp place).1
    · cases found
  · obtain ⟨absent, rfl⟩ := Assembly.scope_error_iff.mp refused
    exact unknown absent

theorem yields_addScope {name : String} {parent : ScopeId}
    {given : ScopeId → Assembly × List Event → Prop}
    (added : ∀ id grown, state.1.addScope name parent = .ok (id, grown) →
      given id (grown, state.2))
    (refused : ∀ misuse, (Request.addScope name parent).Misuses state.1 misuse →
      failed misuse state) :
    (addScope name parent).Yields state given failed broken := by
  unfold Attempt.Yields addScope
  cases result : state.1.addScope name parent with
  | ok pair => exact added pair.1 pair.2 result
  | error misuse => exact refused misuse (Assembly.addScope_error_iff.mp result)

end Declaring

open Declaring

/-- Adjustments are refused for the first one that is a mistake; those before it were made. -/
theorem yields_adjust (id : EntryId) (adjustments : List Adjustment)
    (state : Assembly × List Event) :
    (adjust id adjustments).Yields state (fun _ _ => True)
      (fun misuse after => ∃ before adjustment rest, adjustments = before ++ adjustment :: rest ∧
        adjust id before state = (.value (), after) ∧
        (Request.adjust id adjustment).Misuses after.1 misuse) fun _ => False := by
  induction adjustments generalizing state with
  | nil => trivial
  | cons adjustment rest ih =>
    rw [adjust, Attempt.yields_bind, yields_observe]
    cases found : state.1.entries[id.index]? with
    | none => trivial
    | some entry =>
      dsimp only
      rw [Attempt.yields_bind]
      refine yields_require (fun adjusted applied => ?_) fun misuse refused => ?_
      · rw [Attempt.yields_bind, yields_change]
        refine (ih _).mono (fun _ _ given => given) ?_ fun _ broken => broken
        rintro misuse after ⟨before, other, rest, rfl, made, misuses⟩
        refine ⟨adjustment :: before, other, rest, rfl, ?_, misuses⟩
        rw [← made]
        simp [adjust, Attempt.bind_apply, found, applied]
      · obtain ⟨mode, rfl, given, different, rfl⟩ := Adjustment.apply_error_iff.mp refused
        exact ⟨[], _, rest, rfl, rfl, .mode found given different⟩

/-- Each refusal comes from a call that is a mistake in the state that is left. -/
def Request.Accounts (request : Request) {α : Type} (declaring : Declaring α)
    (state : Assembly × List Event) : Prop :=
  declaring.Yields state (fun _ _ => True)
    (fun misuse after => ∃ inner, request.Makes state inner after ∧ inner.Misuses after.1 misuse)
    fun _ => False

theorem accounts_provide (provider : Provider) (adjustments : List Adjustment) (scope : ScopeId)
    (state : Assembly × List Event) :
    (Request.declare (.provide provider adjustments) scope).Accounts
      (provider.declare adjustments scope) state := by
  unfold Request.Accounts Provider.declare
  rw [Attempt.yields_bind, yields_observe, Attempt.yields_bind]
  refine yields_require (fun entry checked => ?_) fun misuse refused => ?_
  · rw [Attempt.yields_bind, yields_declare, Attempt.yields_bind]
    refine (yields_adjust _ adjustments _).mono (fun _ _ _ => trivial) ?_ fun _ => id
    rintro misuse after ⟨before, adjustment, rest, rfl, made, misuses⟩
    have declared : provider.declare before scope state =
        (.value (.provided (state.1.declare entry).1 entry.key), after) := by
      simp [Provider.declare, Attempt.bind_apply, checked, made]
    exact ⟨_, .adjust adjustment rest declared, misuses⟩
  · obtain ⟨type, key, mistyped, rfl⟩ := Provider.entry_error_iff.mp refused
    exact ⟨_, .self _ _, .key adjustments scope mistyped⟩

theorem accounts_import (source : ImportSource) (ops : List ImportOp) (scope : ScopeId)
    (state : Assembly × List Event) :
    (Request.declare (.importFrom source ops) scope).Accounts
      (declareImport source ops scope) state := by
  unfold Request.Accounts declareImport
  rw [Attempt.yields_bind]
  refine yields_require (fun spec made => ?_) fun misuse refused => ?_
  · have fine := ImportSpec.checkAll_of_make made
    cases source with
    | pool built => trivial
    | scope id =>
      rw [Attempt.yields_bind]
      exact yields_requireScope (fun _ => trivial) fun unknown =>
        ⟨_, .self _ _, .source scope fine unknown⟩
  · obtain ⟨before, renamed, target, rest, rfl, fine, different, rfl⟩ :=
      ImportSpec.checkAll_error_iff.mp (ImportSpec.make_error_iff.mp refused)
    exact ⟨_, .self _ _, .rebind source rest scope fine different⟩

/-- A bundle is refused for its scope, or for what it declares. -/
theorem yields_installing {bundle : Bundle} {scope : ScopeId}
    {configuring : Declaring (List Declared)} {state : Assembly × List Event}
    {failed : Misuse → Assembly × List Event → Prop}
    (unknown : state.1.scopes[scope.index]? = none →
      failed (.unknownScope scope state.1.config.name) state)
    (declares : scope.index < state.1.scopes.length →
      configuring.Yields (state.1.enter scope bundle, state.2) (fun _ _ => True) failed
        fun _ => False) :
    (installing bundle scope configuring).Yields state (fun _ _ => True) failed
      fun _ => False := by
  unfold installing
  rw [Attempt.yields_bind]
  refine yields_requireScope (fun known => ?_) unknown
  rw [Attempt.yields_bind, yields_observe, Attempt.yields_bind, yields_change, Attempt.yields_bind]
  exact (declares known).mono (fun _ _ _ => trivial) (fun _ _ failed => failed) fun _ => nofun

mutual

/-- A declaration is refused for its own mistake, or for that of a call that it makes. -/
theorem Declaration.accounts_apply (declaration : Declaration) (scope : ScopeId)
    (state : Assembly × List Event) :
    (Request.declare declaration scope).Accounts (declaration.apply scope) state := by
  match declaration with
  | .provide provider adjustments => exact accounts_provide provider adjustments scope state
  | .importFrom source ops => exact accounts_import source ops scope state
  | .exportKey key => trivial
  | .exportRenamed key exportAs =>
    unfold Request.Accounts
    rw [Declaration.apply, declareExport, Attempt.yields_bind]
    refine yields_require (fun _ _ => trivial) fun misuse refused => ?_
    obtain ⟨different, rfl⟩ := ExportSpec.rebound_error_iff.mp refused
    exact ⟨_, .self _ _, .exportAs scope different⟩
  | .exportAll => trivial
  | .install bundle configure =>
    unfold Request.Accounts
    rw [Declaration.apply, Attempt.yields_bind, yields_observe, Attempt.yields_bind]
    refine (yields_installing (fun unknown => ?_) fun known => ?_).mono (fun _ _ _ => trivial)
      (fun _ _ failed => failed) fun _ broken => broken
    · exact ⟨_, .self _ _, .install bundle configure unknown⟩
    · refine (Declaration.yields_applyEach (configure state.1.config) scope _).mono
        (fun _ _ given => given) ?_ fun _ broken => broken
      rintro misuse after ⟨before, declaration, rest, answers, middle, split, ran, inner, makes,
        misuses⟩
      exact ⟨inner, .install known split ran makes, misuses⟩
  | .link name bundle configure =>
    unfold Request.Accounts
    rw [Declaration.apply, Attempt.yields_bind, yields_observe, Attempt.yields_bind]
    refine yields_addScope (fun child grown added => ?_) fun misuse misuses => ?_
    · have inside : child.index < grown.scopes.length := by
        obtain ⟨rfl, path, rfl⟩ := Assembly.eq_joinScope_of_addScope added
        simp [Assembly.joinScope, Assembly.appendScope, Assembly.changeScope]
      rw [Attempt.yields_bind]
      refine (yields_installing (fun unknown => ?_) fun known => ?_).mono (fun _ _ _ => trivial)
        (fun _ _ failed => failed) fun _ broken => broken
      · exact absurd inside (Nat.not_lt.mpr (List.getElem?_eq_none_iff.mp unknown))
      · refine (Declaration.yields_applyEach (configure state.1.config) child _).mono
          (fun _ _ given => given) ?_ fun _ broken => broken
        rintro misuse after ⟨before, declaration, rest, answers, middle, split, ran, inner, makes,
          misuses⟩
        exact ⟨inner, .link added split ran makes, misuses⟩
    · exact ⟨_, .self _ _, .link bundle configure misuses⟩
  | .locate => trivial
  | .panic message => exact ⟨_, .self _ _, .raised message scope⟩
  | .attempt declarations =>
    unfold Request.Accounts
    rw [Declaration.apply, Attempt.yields_bind, Attempt.yields_outcome]
    exact (Declaration.yields_applyEach declarations scope state).mono (fun _ _ _ => trivial)
      (fun _ _ _ => trivial) fun _ broken => broken

/-- Of several declarations the first one that is refused ends them. -/
theorem Declaration.yields_applyEach (declarations : List Declaration) (scope : ScopeId)
    (state : Assembly × List Event) :
    (Declaration.applyEach declarations scope).Yields state (fun _ _ => True)
      (fun misuse after => ∃ before declaration rest answers middle,
        declarations = before ++ declaration :: rest ∧
        Declaration.applyEach before scope state = (.value answers, middle) ∧
        ∃ inner, (Request.declare declaration scope).Makes middle inner after ∧
          inner.Misuses after.1 misuse)
      fun _ => False := by
  match declarations with
  | [] => trivial
  | declaration :: rest =>
    rw [Declaration.applyEach, Attempt.yields_bind]
    refine Attempt.Yields.mono (Declaration.accounts_apply declaration scope state).ran ?_ ?_
      fun _ broken => broken
    · intro first middle ran
      rw [Attempt.yields_bind]
      refine (Declaration.yields_applyEach rest scope middle).mono (fun _ _ _ => trivial) ?_
        fun _ broken => broken
      rintro misuse after ⟨before, other, onward, answers, last, rfl, made, inner⟩
      refine ⟨declaration :: before, other, onward, first :: answers, last, rfl, ?_, inner⟩
      simp [Declaration.applyEach, Attempt.bind_apply, ran, made]
    · rintro misuse after ⟨inner, makes, misuses⟩
      exact ⟨[], declaration, rest, [], state, rfl, rfl, inner, makes, misuses⟩

end

namespace Request

variable {state : Assembly × List Event} {request : Request} {misuse : Misuse}

/-- A mistake is refused, and the assembly is left as it was found. -/
theorem Misuses.perform_eq (misuses : request.Misuses state.1 misuse) :
    request.perform state = (.error misuse, state) := by
  have unadded {name : String} {parent : ScopeId} {misuse : Misuse}
      (misuses : (Request.addScope name parent).Misuses state.1 misuse) :
      Declaring.addScope name parent state = (.error misuse, state) := by
    rw [Declaring.addScope, Assembly.addScope_error_iff.mpr misuses]
  have unknown {scope : ScopeId} (unknown : state.1.scopes[scope.index]? = none) :
      requireScope scope state = (.error (.unknownScope scope state.1.config.name), state) := by
    simp [requireScope, Attempt.bind_apply, Assembly.scope, unknown]
  cases misuses with
  | parent name absent => simp [perform, Attempt.bind_apply, unadded (.parent name absent)]
  | taken found among same =>
    simp [perform, Attempt.bind_apply, unadded (.taken found among same)]
  | link bundle configure misuses =>
    simp [perform, Declaration.apply, Attempt.bind_apply, unadded misuses]
  | configure absent => exact unknown absent
  | install bundle configure absent =>
    simp [perform, Declaration.apply, installing, Attempt.bind_apply, unknown absent]
  | @key provider type key adjustments scope mistyped =>
    have refused : provider.entry scope state.1 = .error _ :=
      Provider.entry_error_iff.mpr ⟨_, _, mistyped, rfl⟩
    simp [perform, Declaration.apply, Provider.declare, Attempt.bind_apply, refused]
  | mode found given other =>
    have refused := Adjustment.apply_error_iff.mpr ⟨_, rfl, given, other, rfl⟩
    simp [perform, Wiring.adjust, Attempt.bind_apply, found, refused]
  | rebind source rest scope fine different =>
    have refused : ImportSpec.make source _ = .error _ := ImportSpec.make_error_iff.mpr
      (ImportSpec.checkAll_error_iff.mpr ⟨_, _, _, rest, rfl, fine, different, rfl⟩)
    simp [perform, Declaration.apply, declareImport, Attempt.bind_apply, refused]
  | source scope fine absent =>
    simp [perform, Declaration.apply, declareImport, ImportSpec.make, fine, Attempt.bind_apply,
      Except.map, unknown absent]
  | exportAs scope different =>
    have refused := ExportSpec.rebound_error_iff.mpr ⟨different, rfl⟩
    simp [perform, Declaration.apply, declareExport, Attempt.bind_apply, refused]
  | raised message scope => rfl

/-- A call is refused for its own mistake, or for that of a call that it makes. -/
theorem accounts_perform (request : Request) (state : Assembly × List Event) :
    request.Accounts request.perform state := by
  unfold Accounts
  cases request with
  | addScope name parent =>
    rw [perform, Attempt.yields_bind]
    exact yields_addScope (fun _ _ _ => trivial) fun misuse misuses => ⟨_, .self _ _, misuses⟩
  | configure scope =>
    exact yields_requireScope (fun _ => trivial) fun unknown => ⟨_, .self _ _, .configure unknown⟩
  | declare declaration scope =>
    rw [perform, Attempt.yields_bind]
    exact Attempt.Yields.mono (declaration.accounts_apply scope state) (fun _ _ _ => trivial)
      (fun _ _ failed => failed) fun _ broken => broken
  | adjust id adjustment =>
    refine (yields_adjust id [adjustment] state).mono (fun _ _ given => given) ?_
      fun _ broken => broken
    rintro misuse after ⟨before, other, rest, single, made, misuses⟩
    have alone : before = [] ∧ adjustment = other := by
      cases before with
      | nil => exact ⟨rfl, (List.cons.inj single).1⟩
      | cons first before => simpa using congrArg List.length single
    obtain ⟨rfl, rfl⟩ := alone
    obtain rfl : state = after := congrArg Prod.snd made
    exact ⟨_, .self _ _, misuses⟩

/-- Misuse changes nothing. In every assembly, also in the middle of what a bundle declares, a call
that is a mistake is refused with the mistake and leaves the assembly as it was, so that whatever is
done next goes as if the call had not been made; in a host that catches the panic nothing has
changed either. And there are no other refusals: a call that is refused is a mistake, or consists of
calls one of which is a mistake in the state in which it is made, and that state is left. -/
theorem refused_unchanged (request : Request) (state : Assembly × List Event) :
    (∀ misuse, request.Misuses state.1 misuse →
      request.perform state = (.error misuse, state) ∧
      (∀ (α : Type) (next : Declaring α),
        (request.perform.outcome >>= fun _ => next) state = next state) ∧
      ∀ host : Host, host.assembly = some state.1 →
        host.declare request.perform = (some (.error misuse), host)) ∧
    ((∃ after, request.perform state = (.value (), after)) ∨
      ∃ misuse after inner, request.perform state = (.error misuse, after) ∧
        request.Makes state inner after ∧ inner.Misuses after.1 misuse ∧
        inner.perform after = (.error misuse, after)) := by
  refine ⟨fun misuse misuses => ⟨misuses.perform_eq, fun α next => ?_, fun host current => ?_⟩, ?_⟩
  · simp [Attempt.bind_apply, Attempt.outcome, misuses.perform_eq]
  · have fresh : request.Misuses (state.1, ([] : List Event)).1 misuse := misuses
    have refused := fresh.perform_eq
    simp only [Host.declare, current, refused, List.foldl_nil]
    rw [← current]
  · have accounts := request.accounts_perform state
    unfold Accounts Attempt.Yields at accounts
    rcases ran : request.perform state with ⟨ending, after⟩
    rw [ran] at accounts
    cases ending with
    | value done => exact .inl ⟨after, rfl⟩
    | error misuse =>
      obtain ⟨inner, makes, misuses⟩ := accounts
      exact .inr ⟨misuse, after, inner, rfl, makes, misuses, misuses.perform_eq⟩
    | panic message => exact accounts.elim
    | exhausted => exact accounts.elim

/-- An assembly while a bundle declares into its root and has just provided a number. -/
def amid : Assembly × List Event :=
  ((Declaration.provide (.given (.ofParts .u8 5 "") none) []).apply ⟨0⟩
    ((Assembly.new 0 (.named "app")).enter ⟨0⟩ ⟨"tools", .nothing⟩, [])).2

/-- A number that was provided is constant, so the bundle is refused when it asks for another mode,
and goes on as if it had not asked. -/
theorem refused_unchanged_sample :
    amid.1.source = some "tools" ∧
      (adjust ⟨0⟩ (.choose .lazy)).perform amid = (.error (.instanceMode (.of .u8) .lazy), amid) ∧
      ((adjust ⟨0⟩ (.choose .lazy)).perform.outcome >>= fun _ =>
          (Declaration.exportKey (.of .u8)).apply ⟨0⟩) amid =
        (Declaration.exportKey (.of .u8)).apply ⟨0⟩ amid := by
  have found : amid.1.entries[0]? = some amid.1.entries[0] := rfl
  have misuses : (adjust ⟨0⟩ (.choose .lazy)).Misuses amid.1 (.instanceMode (.of .u8) .lazy) :=
    .mode found rfl nofun
  obtain ⟨refused, onward, -⟩ := (refused_unchanged _ amid).1 _ misuses
  exact ⟨rfl, refused, onward _ _⟩

end Request

end Wiring
