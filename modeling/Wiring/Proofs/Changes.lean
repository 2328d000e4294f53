import Mathlib.Data.List.Sort
import Mathlib.Logic.Relation
import Wiring.Proofs.Reaching

/-!
The changes of which declarations consist. Whatever is declared, and however it ends, the assembly
goes on by new scopes, entries, imports and exports, by adjustments of entries, and by bundles that
are entered and left. What each of these changes keeps holds of the assembly of every reachable
host: the lists of a scope follow the order of declaration.
-/

namespace Wiring

open Relation

namespace Assembly

/-- One change of an assembly. -/
inductive Changes : Assembly → Assembly → Prop
  | declare (assembly : Assembly) (entry : Entry) : Changes assembly (assembly.declare entry).2
  | adjust (assembly : Assembly) (entries : List Entry)
      (length : entries.length = assembly.entries.length) :
      Changes assembly { assembly with entries := entries }
  | addImport (assembly : Assembly) (scope : ScopeId) (spec : ImportSpec) :
      Changes assembly (assembly.addImport scope spec)
  | addExport (assembly : Assembly) (scope : ScopeId) (spec : ExportSpec) :
      Changes assembly (assembly.addExport scope spec)
  | addScope {assembly grown : Assembly} {name : String} {parent id : ScopeId}
      (added : assembly.addScope name parent = .ok (id, grown)) : Changes assembly grown
  | enter (assembly : Assembly) {scope : ScopeId} (bundle : Bundle)
      (inside : scope.index < assembly.scopes.length) :
      Changes assembly (assembly.enter scope bundle)
  | leave (assembly : Assembly) (source : Option String) :
      Changes assembly { assembly with source := source }

end Assembly

namespace Declaring

variable {α β : Type} {property : Assembly → Prop}

/-- The declaring keeps a property of assemblies, however it ends. -/
def Upholds (property : Assembly → Prop) (declaring : Declaring α) : Prop :=
  ∀ state : Assembly × List Event, property state.1 → property (declaring state).2.1

/-- What the first declaring leaves, the next one keeps. -/
theorem Upholds.after {next : α → Declaring β} (onward : ∀ value, (next value).Upholds property)
    {declaring : Declaring α} {state : Assembly × List Event}
    (first : property (declaring state).2.1) : property ((declaring >>= next) state).2.1 := by
  rw [Attempt.bind_apply]
  generalize declaring state = result at first ⊢
  obtain ⟨ending, middle⟩ := result
  cases ending with
  | value value => exact onward value middle first
  | error misuse => exact first
  | panic message => exact first
  | exhausted => exact first

theorem Upholds.bind {declaring : Declaring α} {next : α → Declaring β}
    (first : declaring.Upholds property) (onward : ∀ value, (next value).Upholds property) :
    Upholds property (declaring >>= next) :=
  fun state holds => Upholds.after onward (first state holds)

theorem upholds_pure (value : α) : Upholds property (pure value) := fun _ holds => holds

theorem upholds_observe (fact : Assembly → α) : Upholds property (observe fact) :=
  fun _ holds => holds

theorem upholds_require (check : Except Misuse α) : Upholds property (require check) := by
  intro state holds
  cases check <;> exact holds

theorem upholds_requireScope (scope : ScopeId) : Upholds property (requireScope scope) :=
  (upholds_observe _).bind fun _ => (upholds_require _).bind fun _ => upholds_pure ()

theorem upholds_report (event : Event) : Upholds property (report event) := fun _ holds => holds

theorem upholds_change {update : Assembly → Assembly}
    (kept : ∀ assembly, property assembly → property (update assembly)) :
    Upholds property (change update) := fun state holds => kept state.1 holds

theorem outcome_state (declaring : Declaring α) (state : Assembly × List Event) :
    ((declaring.outcome : Declaring (Except Misuse α)) state).2 = (declaring state).2 := by
  unfold Attempt.outcome
  rcases declaring state with ⟨ending, after⟩
  cases ending <;> rfl

/-- A caught panic leaves what was declared before it. -/
theorem upholds_outcome {declaring : Declaring α} (upholds : declaring.Upholds property) :
    Upholds property (declaring.outcome : Declaring (Except Misuse α)) := by
  intro state holds
  rw [outcome_state]
  exact upholds state holds

/-- Whatever comes of the declaring, it changes the assembly step by step. -/
def Stepwise (declaring : Declaring α) : Prop :=
  ∀ state : Assembly × List Event,
    ReflTransGen Assembly.Changes state.1 (declaring state).2.1

theorem Stepwise.bind {declaring : Declaring α} {next : α → Declaring β}
    (first : declaring.Stepwise) (onward : ∀ value, (next value).Stepwise) :
    Stepwise (declaring >>= next) := fun state =>
  Upholds.after (fun value middle before => before.trans (onward value middle)) (first state)

theorem stepwise_pure (value : α) : Stepwise (pure value) := fun _ => .refl

theorem stepwise_observe (fact : Assembly → α) : Stepwise (observe fact) := fun _ => .refl

theorem stepwise_report (event : Event) : Stepwise (report event) := fun _ => .refl

theorem stepwise_require (check : Except Misuse α) : Stepwise (require check) := by
  intro state
  cases check <;> exact .refl

theorem stepwise_requireScope (scope : ScopeId) : Stepwise (requireScope scope) :=
  (stepwise_observe _).bind fun _ => (stepwise_require _).bind fun _ => stepwise_pure ()

theorem stepwise_change {update : Assembly → Assembly}
    (changes : ∀ assembly, Assembly.Changes assembly (update assembly)) :
    Stepwise (change update) := fun state => .single (changes state.1)

theorem stepwise_outcome {declaring : Declaring α} (stepwise : declaring.Stepwise) :
    Stepwise (declaring.outcome : Declaring (Except Misuse α)) := by
  intro state
  rw [outcome_state]
  exact stepwise state

theorem stepwise_declare (entry : Entry) : Stepwise (declare entry) :=
  fun state => .single (.declare state.1 entry)

theorem stepwise_addScope (name : String) (parent : ScopeId) : Stepwise (addScope name parent) := by
  intro state
  unfold addScope
  cases added : state.1.addScope name parent with
  | ok grown => exact .single (.addScope added)
  | error misuse => exact .refl

end Declaring

open Declaring

theorem stepwise_adjust (id : EntryId) (adjustments : List Adjustment) :
    Stepwise (adjust id adjustments) := by
  induction adjustments with
  | nil => exact stepwise_pure ()
  | cons adjustment rest ih =>
    refine (stepwise_observe _).bind fun found => ?_
    cases found with
    | none => exact stepwise_pure ()
    | some entry =>
      refine (stepwise_require _).bind fun adjusted => ?_
      exact (stepwise_change fun assembly => .adjust assembly _ List.length_set).bind fun _ => ih

theorem stepwise_provide (provider : Provider) (adjustments : List Adjustment) (scope : ScopeId) :
    Stepwise (provider.declare adjustments scope) :=
  (stepwise_observe _).bind fun _ => (stepwise_require _).bind fun entry =>
    (stepwise_declare entry).bind fun id => (stepwise_adjust id adjustments).bind fun _ =>
      stepwise_pure _

theorem stepwise_import (source : ImportSource) (ops : List ImportOp) (scope : ScopeId) :
    Stepwise (declareImport source ops scope) := by
  refine (stepwise_require _).bind fun spec => ?_
  have recorded : Stepwise
      (do change fun assembly => assembly.addImport scope spec; return Declared.done) :=
    (stepwise_change fun assembly => .addImport assembly scope spec).bind fun _ => stepwise_pure _
  cases source with
  | scope id => exact (stepwise_requireScope id).bind fun _ => recorded
  | pool built => exact (stepwise_pure PUnit.unit).bind fun _ => recorded

theorem stepwise_export (spec : Except Misuse ExportSpec) (scope : ScopeId) :
    Stepwise (declareExport spec scope) :=
  (stepwise_require _).bind fun made =>
    (stepwise_change fun assembly => .addExport assembly scope made).bind fun _ => stepwise_pure _

/-- A bundle is entered only into a scope that exists. -/
theorem stepwise_installing (bundle : Bundle) (scope : ScopeId)
    {configuring : Declaring (List Declared)} (configures : configuring.Stepwise) :
    Stepwise (installing bundle scope configuring) := by
  intro state
  unfold installing requireScope observe require Assembly.scope
  cases found : state.1.scopes[scope.index]? with
  | none =>
    simp only [Attempt.bind_apply, Attempt.observe_apply, found, Attempt.fail_apply]
    exact .refl
  | some data =>
    simp only [Attempt.bind_apply, Attempt.observe_apply, found, Attempt.done_apply,
      Attempt.pure_apply]
    have onward (source : Option String) : Stepwise (do
        let steps ← configuring
        change fun assembly => { assembly with source := source }
        let name ← observe fun assembly => assembly.scopeName scope
        report (.bundleInstalled bundle.name name)
        return steps) :=
      configures.bind fun _ =>
        (stepwise_change fun assembly => .leave assembly source).bind fun _ =>
          (stepwise_observe _).bind fun _ => (stepwise_report _).bind fun _ => stepwise_pure _
    exact .head (.enter state.1 bundle (List.getElem?_eq_some_iff.mp found).1)
      (onward state.1.source (state.1.enter scope bundle, state.2))

mutual

/-- A declaration changes the assembly step by step. -/
theorem Declaration.stepwise_apply (declaration : Declaration) (scope : ScopeId) :
    Stepwise (declaration.apply scope) := by
  match declaration with
  | .provide provider adjustments => exact stepwise_provide provider adjustments scope
  | .importFrom source ops => exact stepwise_import source ops scope
  | .exportKey key => exact stepwise_export _ scope
  | .exportRenamed key exportAs => exact stepwise_export _ scope
  | .exportAll => exact stepwise_export _ scope
  | .install bundle configure =>
    refine (stepwise_observe _).bind fun config => ?_
    exact (stepwise_installing bundle scope
      (Declaration.stepwise_applyEach (configure config) scope)).bind fun _ => stepwise_pure _
  | .link name bundle configure =>
    refine (stepwise_observe _).bind fun config => (stepwise_addScope name scope).bind
      fun child => ?_
    exact (stepwise_installing bundle child
      (Declaration.stepwise_applyEach (configure config) child)).bind fun _ => stepwise_pure _
  | .locate =>
    exact (stepwise_observe _).bind fun _ => (stepwise_observe _).bind fun _ => stepwise_pure _
  | .panic message => exact fun _ => .refl
  | .attempt declarations =>
    refine (stepwise_outcome (Declaration.stepwise_applyEach declarations scope)).bind ?_
    rintro (misuse | steps)
    · exact stepwise_pure _
    · exact stepwise_pure _

/-- Declarations change the assembly step by step. -/
theorem Declaration.stepwise_applyEach (declarations : List Declaration) (scope : ScopeId) :
    Stepwise (Declaration.applyEach declarations scope) := by
  match declarations with
  | [] => exact stepwise_pure []
  | declaration :: rest =>
    exact (Declaration.stepwise_apply declaration scope).bind fun _ =>
      (Declaration.stepwise_applyEach rest scope).bind fun _ => stepwise_pure _

end

theorem stepwise_declareIn (scope : ScopeId) (declaration : Declaration) :
    Stepwise (declareIn scope declaration) :=
  (stepwise_requireScope scope).bind fun _ => declaration.stepwise_apply scope

/-- What holds of new assemblies and is kept by every change holds of the assembly of every
reachable host. -/
theorem Host.Reachable.assembly_induct {host : Host} {property : Assembly → Prop}
    (reachable : host.Reachable) {assembly : Assembly} (current : host.assembly = some assembly)
    (new : ∀ number config, property (.new number config))
    (step : ∀ before after, Assembly.Changes before after → property before → property after) :
    property assembly := by
  have steps {before after : Assembly} (changes : ReflTransGen Assembly.Changes before after)
      (holds : property before) : property after := by
    induction changes with
    | refl => exact holds
    | tail _ change ih => exact step _ _ change ih
  have declared {α : Type} {host : Host} {declaring : Declaring α} (stepwise : declaring.Stepwise)
      (holds : ∀ assembly, host.assembly = some assembly → property assembly) :
      ∀ assembly, (host.declare declaring).2.assembly = some assembly → property assembly := by
    rw [declare_eq]
    cases present : host.assembly with
    | none => exact fun _ same => nomatch present.symm.trans same
    | some before =>
      rintro _ same
      obtain rfl := Option.some.inj same
      exact steps (stepwise (before, [])) (holds before present)
  have all : ∀ assembly, host.assembly = some assembly → property assembly := by
    clear current
    apply reachable.induct
    · exact fun _ _ none => nomatch none
    intro before after _ moves holds
    cases moves with
    | start config =>
      rintro _ same
      obtain rfl := Option.some.inj same
      exact new _ _
    | addScope name parent => exact declared (stepwise_addScope name parent) holds
    | declare scope declaration => exact declared (stepwise_declareIn scope declaration) holds
    | build =>
      rw [build_eq]
      cases present : before.assembly with
      | none => exact holds
      | some other => exact fun _ none => nomatch none
    | ask path query =>
      rw [ask_eq]
      cases path.resolve? before.applications <;> exact holds
    | collect => exact holds
  exact all assembly current

namespace Assembly

/-- There is a root scope, and the lists of every scope follow the order in which entries and scopes
were declared. -/
structure Ordered (assembly : Assembly) : Prop where
  root : 0 < assembly.scopes.length
  declared : ∀ scope ∈ assembly.scopes,
    scope.declared.Pairwise (fun earlier later => earlier.index < later.index) ∧
      ∀ id ∈ scope.declared, id.index < assembly.entries.length
  children : ∀ scope ∈ assembly.scopes,
    scope.children.Pairwise (fun earlier later => earlier.index < later.index) ∧
      ∀ child ∈ scope.children, child.index < assembly.scopes.length

variable {assembly : Assembly}

theorem ordered_new (number : Nat) (config : Config) : (new number config).Ordered where
  root := Nat.one_pos
  declared scope member := by
    rw [List.mem_singleton.mp member]
    exact ⟨.nil, fun _ listed => absurd listed List.not_mem_nil⟩
  children scope member := by
    rw [List.mem_singleton.mp member]
    exact ⟨.nil, fun _ listed => absurd listed List.not_mem_nil⟩

theorem mem_changeScope {id : ScopeId} {change : Scope → Scope} {scope : Scope}
    (member : scope ∈ (assembly.changeScope id change).scopes) :
    ∃ old ∈ assembly.scopes, scope = old ∨ scope = change old := by
  obtain ⟨index, found⟩ := List.getElem?_of_mem member
  rw [getElem?_changeScope, Option.map_eq_some_iff] at found
  obtain ⟨old, place, rfl⟩ := found
  refine ⟨old, List.mem_of_getElem? place, ?_⟩
  split
  · exact .inr rfl
  · exact .inl rfl

/-- A change of a scope that leaves a field alone leaves it to all scopes. -/
theorem exists_kept_of_mem_changeScope {α : Type} {id : ScopeId} {change : Scope → Scope}
    {field : Scope → α} (kept : ∀ scope, field (change scope) = field scope) {scope : Scope}
    (member : scope ∈ (assembly.changeScope id change).scopes) :
    ∃ old ∈ assembly.scopes, field scope = field old := by
  obtain ⟨old, among, rfl | rfl⟩ := mem_changeScope member
  · exact ⟨_, among, rfl⟩
  · exact ⟨old, among, kept old⟩

/-- A change of a scope that leaves both lists alone. -/
theorem Ordered.changeScope (ordered : assembly.Ordered) (id : ScopeId) (change : Scope → Scope)
    (declared : ∀ scope, (change scope).declared = scope.declared)
    (children : ∀ scope, (change scope).children = scope.children) :
    (assembly.changeScope id change).Ordered where
  root := by simpa [Assembly.changeScope] using ordered.root
  declared scope member := by
    obtain ⟨old, among, kept⟩ := exists_kept_of_mem_changeScope declared member
    rw [kept]
    exact ordered.declared old among
  children scope member := by
    obtain ⟨old, among, kept⟩ := exists_kept_of_mem_changeScope children member
    rw [kept]
    simpa [Assembly.changeScope] using ordered.children old among

/-- A number that comes after all others is listed last. -/
theorem pairwise_append_last {α : Type} {index : α → Nat} {listed : List α} {last : α}
    (sorted : listed.Pairwise fun earlier later => index earlier < index later)
    (below : ∀ item ∈ listed, index item < index last) :
    (listed ++ [last]).Pairwise fun earlier later => index earlier < index later := by
  refine List.pairwise_append.mpr
    ⟨sorted, List.pairwise_singleton _ _, fun item member other here => ?_⟩
  rw [List.mem_singleton.mp here]
  exact below item member

/-- Two lists in the order of their numbers are the same when they have the same members. -/
theorem eq_of_pairwise_index {α : Type} {index : α → Nat} {first second : List α}
    (sorted : first.Pairwise fun earlier later => index earlier < index later)
    (sorted' : second.Pairwise fun earlier later => index earlier < index later)
    (same : ∀ item, item ∈ first ↔ item ∈ second) : first = second := by
  have irreflexive : Std.Irrefl fun left right : α => index left < index right :=
    ⟨fun item => Nat.lt_irrefl (index item)⟩
  have antisymmetric : Std.Antisymm fun left right : α => index left < index right :=
    ⟨fun _ _ before after => absurd (Nat.lt_trans before after) (Nat.lt_irrefl _)⟩
  exact List.Pairwise.eq_of_mem_iff sorted sorted' same

theorem Ordered.declare (ordered : assembly.Ordered) (entry : Entry) :
    (assembly.declare entry).2.Ordered where
  root := by simpa [Assembly.declare, Assembly.changeScope] using ordered.root
  declared scope member := by
    have longer : (assembly.declare entry).2.entries.length = assembly.entries.length + 1 := by
      simp [Assembly.declare, Assembly.changeScope]
    obtain ⟨old, among, same⟩ := mem_changeScope member
    obtain ⟨sorted, below⟩ := ordered.declared old among
    rw [longer]
    rcases same with rfl | rfl
    · exact ⟨sorted, fun id listed => Nat.lt_succ_of_lt (below id listed)⟩
    · refine ⟨pairwise_append_last sorted below, fun id listed => ?_⟩
      rcases List.mem_append.mp listed with known | new
      · exact Nat.lt_succ_of_lt (below id known)
      · rw [List.mem_singleton.mp new]
        exact Nat.lt_succ_self _
  children scope member := by
    have untouched (old : Scope) : Scope.children
        { old with declared := old.declared ++ [⟨assembly.entries.length⟩] } = old.children := rfl
    obtain ⟨old, among, kept⟩ := exists_kept_of_mem_changeScope untouched member
    rw [kept]
    simpa [Assembly.declare, Assembly.changeScope] using ordered.children old among

theorem Ordered.joinScope (ordered : assembly.Ordered) (path : String) (parent : ScopeId) :
    (assembly.joinScope path parent).Ordered := by
  have exists_old {scope : Scope} (member : scope ∈ (assembly.joinScope path parent).scopes) :
      ∃ old, (old ∈ assembly.scopes ∨ old = Scope.empty path (some parent)) ∧
        (scope = old ∨
          scope = { old with children := old.children ++ [⟨assembly.scopes.length⟩] }) := by
    obtain ⟨old, among, same⟩ := mem_changeScope member
    refine ⟨old, ?_, same⟩
    rcases List.mem_append.mp among with known | new
    · exact .inl known
    · exact .inr (List.mem_singleton.mp new)
  have longer : (assembly.joinScope path parent).scopes.length = assembly.scopes.length + 1 := by
    simp [Assembly.joinScope, Assembly.changeScope, appendScope]
  refine ⟨longer ▸ Nat.succ_pos _, fun scope member => ?_, fun scope member => ?_⟩
  · obtain ⟨old, known, same⟩ := exists_old member
    have kept : scope.declared = old.declared := by
      rcases same with rfl | rfl <;> rfl
    rw [kept]
    rcases known with among | rfl
    · exact ordered.declared old among
    · exact ⟨.nil, fun _ listed => absurd listed List.not_mem_nil⟩
  · obtain ⟨old, known, same⟩ := exists_old member
    have before : old.children.Pairwise (fun earlier later => earlier.index < later.index) ∧
        ∀ child ∈ old.children, child.index < assembly.scopes.length := by
      rcases known with among | rfl
      · exact ordered.children old among
      · exact ⟨.nil, fun _ listed => absurd listed List.not_mem_nil⟩
    rw [longer]
    rcases same with rfl | rfl
    · exact ⟨before.1, fun child listed => Nat.lt_succ_of_lt (before.2 child listed)⟩
    · refine ⟨pairwise_append_last before.1 before.2, fun child listed => ?_⟩
      rcases List.mem_append.mp listed with known | new
      · exact Nat.lt_succ_of_lt (before.2 child known)
      · rw [List.mem_singleton.mp new]
        exact Nat.lt_succ_self _

/-- A scope that is added joins the children of its parent. -/
theorem eq_joinScope_of_addScope {name : String} {parent id : ScopeId} {grown : Assembly}
    (added : assembly.addScope name parent = .ok (id, grown)) :
    id = ⟨assembly.scopes.length⟩ ∧ ∃ path, grown = assembly.joinScope path parent := by
  unfold Assembly.addScope at added
  cases found : assembly.scope parent with
  | error misuse => simp [found] at added
  | ok above =>
    simp only [found] at added
    split at added
    · cases added
    · simp only [Except.ok.injEq, Prod.mk.injEq] at added
      obtain ⟨rfl, rfl⟩ := added
      exact ⟨rfl, _, rfl⟩

theorem Ordered.changes {after : Assembly} (ordered : assembly.Ordered)
    (changes : assembly.Changes after) : after.Ordered := by
  cases changes with
  | declare entry => exact ordered.declare entry
  | adjust entries length =>
    exact ⟨ordered.root, by rw [length]; exact ordered.declared, ordered.children⟩
  | addImport scope spec => exact ordered.changeScope scope _ (fun _ => rfl) fun _ => rfl
  | addExport scope spec => exact ordered.changeScope scope _ (fun _ => rfl) fun _ => rfl
  | addScope added =>
    obtain ⟨-, path, rfl⟩ := eq_joinScope_of_addScope added
    exact ordered.joinScope path _
  | enter bundle inside => exact ⟨ordered.root, ordered.declared, ordered.children⟩
  | leave source => exact ⟨ordered.root, ordered.declared, ordered.children⟩

end Assembly

theorem Host.Reachable.ordered {host : Host} (reachable : host.Reachable) {assembly : Assembly}
    (current : host.assembly = some assembly) : assembly.Ordered :=
  reachable.assembly_induct current Assembly.ordered_new fun _ _ changes ordered =>
    ordered.changes changes

end Wiring
