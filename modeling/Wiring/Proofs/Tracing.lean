import Wiring.CoreBundles
import Wiring.Proofs.Consistency
import Wiring.Proofs.Finishes
import Wiring.Proofs.Misuses

/-!
Bundles of tracing. Such a bundle gives its configuration in the scope into which it is installed,
and puts in force what it finds there when the application is built. A resolution that is accepted
has one provider for a key in a scope, and a lookup begins in the own scope. So every bundle of
tracing stands in a scope of its own and finds its own configuration, whatever its ancestors offer
and whatever is imported or exported.
-/

namespace Wiring

open Relation

/-- A bundle that puts a configuration of tracing in force is the one that gives it. -/
def Package.Genuine (package : Package) : Prop :=
  ∀ own, package.bundle.finish = .tracing own → package = Package.tracing own

mutual

/-- All bundles of tracing in the declaration are genuine, whatever the configuration. -/
def Declaration.Genuine : Declaration → Prop
  | .provide _ _ => True
  | .importFrom _ _ => True
  | .exportKey _ => True
  | .exportRenamed _ _ => True
  | .exportAll => True
  | .install bundle configure => Package.Genuine ⟨bundle, configure⟩ ∧
    ∀ config, Declaration.GenuineEach (configure config)
  | .link _ bundle configure => Package.Genuine ⟨bundle, configure⟩ ∧
    ∀ config, Declaration.GenuineEach (configure config)
  | .locate => True
  | .panic _ => True
  | .attempt declarations => Declaration.GenuineEach declarations

/-- All bundles of tracing in the declarations are genuine. -/
def Declaration.GenuineEach : List Declaration → Prop
  | [] => True
  | declaration :: rest => declaration.Genuine ∧ Declaration.GenuineEach rest

end

/-- The configuration that a bundle of tracing was made with. -/
def Bundle.tracing? (bundle : Bundle) : Option TracingConfig :=
  match bundle.finish with
  | .tracing own => some own
  | _ => none

/-- The configuration of tracing that an entry gives under the key of its type. -/
def Entry.setting? (entry : Entry) : Option TracingConfig :=
  match entry.origin with
  | .given handle =>
    if entry.key = Key.of .tracingConfig then handle.value.as? .tracingConfig else none
  | _ => none

theorem Bundle.tracing?_eq_some_iff {bundle : Bundle} {own : TracingConfig} :
    bundle.tracing? = some own ↔ bundle.finish = .tracing own := by
  unfold Bundle.tracing?
  cases bundle.finish <;> simp

theorem Entry.setting?_eq_some_iff {entry : Entry} {own : TracingConfig} :
    entry.setting? = some own ↔ entry.key = Key.of .tracingConfig ∧
      ∃ handle, entry.origin = .given handle ∧ handle.value.as? .tracingConfig = some own := by
  unfold Entry.setting?
  cases entry.origin with
  | given handle => simp
  | made factory => simp
  | delegate target => simp

namespace Assembly

/-- The bundles of tracing that were installed, by their scopes and configurations. -/
def tracings (assembly : Assembly) : List (ScopeId × TracingConfig) :=
  assembly.installations.filterMap fun installation =>
    installation.bundle.tracing?.map (Prod.mk installation.scope)

/-- The configurations of tracing that are given, by their scopes. -/
def settings (assembly : Assembly) : List (ScopeId × TracingConfig) :=
  assembly.entries.filterMap fun entry => entry.setting?.map (Prod.mk entry.scope)

/-- Each bundle of tracing has given its configuration in its scope, one entry for each bundle, once
the pending ones have given theirs. -/
def Lacks (assembly : Assembly) (pending : List (ScopeId × TracingConfig)) : Prop :=
  assembly.tracings.Sublist (assembly.settings ++ pending)

/-- Each bundle of tracing has given its configuration in its scope, one entry for each bundle. -/
def Equipped (assembly : Assembly) : Prop := assembly.tracings.Sublist assembly.settings

variable {assembly : Assembly}

theorem equipped_new (number : Nat) (config : Config) : (new number config).Equipped := .slnil

/-- What leaves the bundles and the entries alone keeps this. -/
theorem Equipped.of_same {after : Assembly} (equipped : assembly.Equipped)
    (installations : after.installations = assembly.installations)
    (entries : after.entries = assembly.entries) : after.Equipped := by
  unfold Equipped tracings settings
  rw [installations, entries]
  exact equipped

theorem settings_declare (assembly : Assembly) (entry : Entry) :
    (assembly.declare entry).2.settings =
      assembly.settings ++ (entry.setting?.map (Prod.mk entry.scope)).toList := by
  change (assembly.entries ++ [entry]).filterMap _ = _
  rw [List.filterMap_append]
  cases here : entry.setting? <;> simp [settings, here]

theorem Equipped.declare (equipped : assembly.Equipped) (entry : Entry) :
    (assembly.declare entry).2.Equipped := by
  unfold Equipped
  rw [settings_declare]
  exact equipped.trans (List.sublist_append_left _ _)

/-- A bundle of tracing begins, and has to give its configuration. -/
theorem Equipped.enter_tracing (equipped : assembly.Equipped) (own : TracingConfig)
    (scope : ScopeId) :
    (assembly.enter scope (Package.tracing own).bundle).Lacks [(scope, own)] := by
  unfold Lacks
  have one : (assembly.enter scope (Package.tracing own).bundle).tracings =
      assembly.tracings ++ [(scope, own)] := by
    simp [tracings, Assembly.enter, List.filterMap_append, Bundle.tracing?, Package.tracing]
  rw [one]
  exact equipped.append (.refl _)

/-- The entry with its configuration makes up for this. -/
theorem Lacks.declare {entry : Entry} {own : TracingConfig}
    (lacks : assembly.Lacks [(entry.scope, own)]) (gives : entry.setting? = some own) :
    (assembly.declare entry).2.Equipped := by
  unfold Equipped
  rw [settings_declare, gives]
  exact lacks

/-- An adjustment changes neither the key nor the origin of an entry. -/
theorem Equipped.adjust (equipped : assembly.Equipped) {index : Nat} {entry adjusted : Entry}
    {adjustment : Adjustment} (found : assembly.entries[index]? = some entry)
    (applied : adjustment.apply entry = .ok adjusted) :
    Equipped { assembly with entries := assembly.entries.set index adjusted } := by
  have same : adjusted.setting?.map (Prod.mk adjusted.scope) =
      entry.setting?.map (Prod.mk entry.scope) := by
    cases adjustment with
    | choose mode =>
      simp only [Adjustment.apply] at applied
      split at applied
      · cases applied
      · obtain rfl := Except.ok.inj applied
        rfl
    | describe description =>
      obtain rfl := Except.ok.inj applied
      rfl
  have kept : settings { assembly with entries := assembly.entries.set index adjusted } =
      assembly.settings := by
    have mapped {entries : List Entry} :
        entries.filterMap (fun entry => entry.setting?.map (Prod.mk entry.scope)) =
          (entries.map fun entry => entry.setting?.map (Prod.mk entry.scope)).filterMap id := by
      rw [List.filterMap_map]
      rfl
    obtain ⟨inside, rfl⟩ := List.getElem?_eq_some_iff.mp found
    unfold settings
    rw [mapped, mapped, List.map_set, same,
      ← List.getElem_map (fun entry : Entry => entry.setting?.map (Prod.mk entry.scope))
        (h := by rwa [List.length_map]), List.set_getElem_self]
  unfold Equipped
  rw [kept]
  exact equipped

/-- A bundle that is not one of tracing begins. -/
theorem Equipped.enter (equipped : assembly.Equipped) {bundle : Bundle}
    (other : bundle.tracing? = none) (scope : ScopeId) :
    (assembly.enter scope bundle).Equipped := by
  unfold Equipped
  have same : (assembly.enter scope bundle).tracings = assembly.tracings := by
    simp [tracings, Assembly.enter, List.filterMap_append, other]
  rw [same]
  exact equipped

end Assembly

open Declaring Assembly

theorem upholds_addScope (name : String) (parent : ScopeId) :
    Upholds Equipped (Declaring.addScope name parent) := by
  intro state equipped
  unfold Declaring.addScope
  cases added : state.1.addScope name parent with
  | error misuse => exact equipped
  | ok pair =>
    obtain ⟨-, path, grown⟩ := eq_joinScope_of_addScope added
    change pair.2.Equipped
    rw [grown]
    exact equipped.of_same rfl rfl

theorem upholds_adjust (id : EntryId) (adjustments : List Adjustment) :
    Upholds Equipped (adjust id adjustments) := by
  intro state equipped
  induction adjustments generalizing state with
  | nil => exact equipped
  | cons adjustment rest ih =>
    rw [adjust, Attempt.bind_apply, observe_apply]
    cases found : state.1.entries[id.index]? with
    | none => exact equipped
    | some entry =>
      dsimp only
      rw [Attempt.bind_apply]
      cases applied : adjustment.apply entry with
      | error misuse => exact equipped
      | ok adjusted => exact ih _ (equipped.adjust found applied)

theorem upholds_provide (provider : Provider) (adjustments : List Adjustment) (scope : ScopeId) :
    Upholds Equipped (provider.declare adjustments scope) :=
  (upholds_observe _).bind fun _ => (upholds_require _).bind fun entry =>
    Upholds.bind (fun _ equipped => equipped.declare entry) fun id =>
      (upholds_adjust id adjustments).bind fun _ => upholds_pure _

theorem upholds_import (source : ImportSource) (ops : List ImportOp) (scope : ScopeId) :
    Upholds Equipped (declareImport source ops scope) := by
  refine (upholds_require _).bind fun spec => ?_
  have recorded : Upholds Equipped
      (do change fun assembly => assembly.addImport scope spec; return Declared.done) :=
    (upholds_change fun _ equipped => equipped.of_same rfl rfl).bind fun _ => upholds_pure _
  cases source with
  | scope id => exact (upholds_requireScope id).bind fun _ => recorded
  | pool built => exact (upholds_pure PUnit.unit).bind fun _ => recorded

theorem upholds_export (spec : Except Misuse ExportSpec) (scope : ScopeId) :
    Upholds Equipped (declareExport spec scope) :=
  (upholds_require _).bind fun _ =>
    (upholds_change fun _ equipped => equipped.of_same rfl rfl).bind fun _ => upholds_pure _

/-- A bundle ends. -/
theorem upholds_leaving (bundle : Bundle) (scope : ScopeId) (source : Option String)
    (steps : List Declared) :
    Upholds Equipped (do
      change fun assembly => { assembly with source := source }
      let name ← observe fun assembly => assembly.scopeName scope
      report (.bundleInstalled bundle.name name)
      return steps) :=
  (upholds_change fun _ equipped => equipped.of_same rfl rfl).bind fun _ =>
    (upholds_observe _).bind fun _ => (upholds_report _).bind fun _ => upholds_pure _

/-- The configuration has the type of its key, so that it is not refused. -/
theorem equipped_provide {own : TracingConfig} {scope : ScopeId} {state : Assembly × List Event}
    (lacks : state.1.Lacks [(scope, own)]) (adjustments : List Adjustment) :
    ((Provider.given ⟨.tracingConfig, own⟩ none).declare adjustments scope state).2.1.Equipped := by
  have given : (Provider.given ⟨.tracingConfig, own⟩ none).entry scope state.1 =
      .ok (.ofHandle (Key.of .tracingConfig) ⟨state.1.nextObject, ⟨.tracingConfig, own⟩⟩ scope
        state.1.source) := rfl
  rw [Provider.declare, Attempt.bind_apply, observe_apply]
  dsimp only
  rw [given, Attempt.bind_apply, require_ok]
  exact Upholds.after (fun id => (upholds_adjust id adjustments).bind fun _ => upholds_pure _)
    (lacks.declare rfl)

/-- A bundle of tracing gives its configuration as soon as it is recorded. -/
theorem upholds_installing_tracing (own : TracingConfig) (config : Config) (scope : ScopeId) :
    Upholds Equipped (installing (Package.tracing own).bundle scope
      (Declaration.applyEach ((Package.tracing own).configure config) scope)) := by
  refine (upholds_requireScope scope).bind fun _ => (upholds_observe _).bind fun source => ?_
  intro state equipped
  have lacks := equipped.enter_tracing own scope
  refine Upholds.after (upholds_leaving _ scope source) (Upholds.after ?_ ?_)
  · exact fun _ => (upholds_pure _).bind fun _ => upholds_pure _
  · exact equipped_provide lacks _

/-- Any other bundle keeps what its declarations keep. -/
theorem upholds_installing {bundle : Bundle} (other : bundle.tracing? = none) (scope : ScopeId)
    {configuring : Declaring (List Declared)} (configures : configuring.Upholds Equipped) :
    Upholds Equipped (installing bundle scope configuring) :=
  (upholds_requireScope scope).bind fun _ => (upholds_observe _).bind fun source =>
    (upholds_change fun _ equipped => equipped.enter other scope).bind fun _ =>
      configures.bind fun steps => upholds_leaving bundle scope source steps

/-- A genuine bundle keeps what its declarations keep. -/
theorem upholds_genuine {bundle : Bundle} {configure : Config → List Declaration}
    (genuine : Package.Genuine ⟨bundle, configure⟩) (config : Config) (scope : ScopeId)
    (configures : Upholds Equipped (Declaration.applyEach (configure config) scope)) :
    Upholds Equipped
      (installing bundle scope (Declaration.applyEach (configure config) scope)) := by
  cases tracing : bundle.tracing? with
  | none => exact upholds_installing tracing scope configures
  | some own =>
    obtain ⟨rfl, rfl⟩ := Package.mk.inj (genuine own (Bundle.tracing?_eq_some_iff.mp tracing))
    exact upholds_installing_tracing own config scope

mutual

/-- A declaration whose bundles of tracing are genuine keeps all of them equipped. -/
theorem Declaration.upholds_apply (declaration : Declaration) (genuine : declaration.Genuine)
    (scope : ScopeId) : Upholds Equipped (declaration.apply scope) := by
  match declaration, genuine with
  | .provide provider adjustments, _ => exact upholds_provide provider adjustments scope
  | .importFrom source ops, _ => exact upholds_import source ops scope
  | .exportKey key, _ => exact upholds_export _ scope
  | .exportRenamed key exportAs, _ => exact upholds_export _ scope
  | .exportAll, _ => exact upholds_export _ scope
  | .install bundle configure, ⟨genuine, within⟩ =>
    refine (upholds_observe _).bind fun config => Upholds.bind ?_ fun _ => upholds_pure _
    exact upholds_genuine genuine config scope
      (Declaration.upholds_applyEach (configure config) (within config) scope)
  | .link name bundle configure, ⟨genuine, within⟩ =>
    refine (upholds_observe _).bind fun config => (upholds_addScope name scope).bind
      fun child => Upholds.bind ?_ fun _ => upholds_pure _
    exact upholds_genuine genuine config child
      (Declaration.upholds_applyEach (configure config) (within config) child)
  | .locate, _ =>
    exact (upholds_observe _).bind fun _ => (upholds_observe _).bind fun _ => upholds_pure _
  | .panic message, _ => exact fun _ equipped => equipped
  | .attempt declarations, genuine =>
    refine (upholds_outcome (Declaration.upholds_applyEach declarations genuine scope)).bind ?_
    rintro (misuse | steps)
    · exact upholds_pure _
    · exact upholds_pure _

theorem Declaration.upholds_applyEach (declarations : List Declaration)
    (genuine : Declaration.GenuineEach declarations) (scope : ScopeId) :
    Upholds Equipped (Declaration.applyEach declarations scope) := by
  match declarations, genuine with
  | [], _ => exact upholds_pure []
  | declaration :: rest, ⟨first, others⟩ =>
    exact (Declaration.upholds_apply declaration first scope).bind fun _ =>
      (Declaration.upholds_applyEach rest others scope).bind fun _ => upholds_pure _

end

namespace Assembly

variable {offered : Pool → Prop} {assembly after : Assembly}

/-- A call on an assembly, whatever comes of it, whose bundles of tracing are genuine. Such a bundle
is never left half installed; any other bundle may begin and end at any time. -/
inductive Equips (offered : Pool → Prop) : Assembly → Assembly → Prop
  | addScope (assembly : Assembly) (name : String) (parent : ScopeId) :
      Equips offered assembly (Declaring.addScope name parent (assembly, [])).2.1
  | declare (assembly : Assembly) (scope : ScopeId) (declaration : Declaration)
      (draws : declaration.Draws offered) (genuine : declaration.Genuine) :
      Equips offered assembly (declareIn scope declaration (assembly, [])).2.1
  | enter (assembly : Assembly) {scope : ScopeId} (bundle : Bundle)
      (inside : scope.index < assembly.scopes.length) (other : bundle.tracing? = none) :
      Equips offered assembly (assembly.enter scope bundle)
  | leave (assembly : Assembly) (source : Option String) :
      Equips offered assembly { assembly with source := source }

theorem Equips.undergoes (equips : assembly.Equips offered after) :
    assembly.Undergoes offered after := by
  cases equips with
  | addScope name parent => exact .addScope assembly name parent
  | declare scope declaration draws _ => exact .declare assembly scope declaration draws
  | enter bundle inside _ => exact .enter assembly bundle inside
  | leave source => exact .leave assembly source

theorem Equipped.equips (equipped : assembly.Equipped) (equips : assembly.Equips offered after) :
    after.Equipped := by
  cases equips with
  | addScope name parent => exact upholds_addScope name parent (assembly, []) equipped
  | declare scope declaration _ genuine =>
    exact ((upholds_requireScope scope).bind fun _ => declaration.upholds_apply genuine scope)
      (assembly, []) equipped
  | enter bundle _ other => exact equipped.enter other _
  | leave source => exact equipped.of_same rfl rfl

theorem regular_new (number : Nat) (config : Config) : (new number config).Regular offered :=
  ⟨wellFormed_new number config, ordered_new number config, named_new number config⟩

/-- What was equipped from the beginning is in order, and every bundle of tracing has given its
configuration. -/
theorem regular_equipped {number : Nat} {config : Config}
    (equips : ReflTransGen (Equips offered) (new number config) assembly) :
    assembly.Regular offered ∧ assembly.Equipped := by
  induction equips with
  | refl => exact ⟨regular_new number config, equipped_new number config⟩
  | tail _ step ih => exact ⟨ih.1.undergoes step.undergoes, ih.2.equips step⟩

/-- In an accepted assembly a scope gives one configuration of tracing at most. -/
theorem nodup_settings (wellFormed : assembly.WellFormed offered)
    (accepted : assembly.survey.accepted = true) :
    (assembly.settings.map Prod.fst).Nodup := by
  unfold settings
  rw [List.Nodup, List.pairwise_map, List.pairwise_filterMap, List.pairwise_iff_getElem]
  intro earlier later inside inside' before first gives second gives' same
  have placed {index : Nat} (inside : index < assembly.entries.length)
      {setting : ScopeId × TracingConfig}
      (gives : assembly.entries[index].setting?.map (Prod.mk assembly.entries[index].scope) =
        some setting) :
      (assembly.exportedDraft.registry setting.1).get? (Key.of .tracingConfig) = some ⟨index⟩ := by
    obtain ⟨own, setting, rfl⟩ := Option.map_eq_some_iff.mp gives
    rw [← (Entry.setting?_eq_some_iff.mp setting).1]
    exact get?_exportedDraft wellFormed accepted (List.getElem?_eq_getElem inside)
  have registered := placed inside gives
  rw [same, placed inside' gives'] at registered
  exact absurd (EntryId.mk.inj (Option.some.inj registered)) (Nat.ne_of_gt before)

/-- Bundles of tracing in an accepted assembly stand in scopes of their own. -/
theorem Equipped.pairwise (equipped : assembly.Equipped) (wellFormed : assembly.WellFormed offered)
    (accepted : assembly.survey.accepted = true) :
    assembly.installations.Pairwise fun first second => ∀ own other,
      first.bundle.finish = .tracing own → second.bundle.finish = .tracing other →
        first.scope ≠ second.scope := by
  have distinct := (nodup_settings wellFormed accepted).sublist (equipped.map Prod.fst)
  unfold tracings at distinct
  rw [List.Nodup, List.pairwise_map, List.pairwise_filterMap] at distinct
  refine distinct.imp fun apart own other finish finish' => ?_
  exact apart _ (Option.map_eq_some_iff.mpr ⟨own, Bundle.tracing?_eq_some_iff.mpr finish, rfl⟩) _
    (Option.map_eq_some_iff.mpr ⟨other, Bundle.tracing?_eq_some_iff.mpr finish', rfl⟩)

/-- The configuration of an installed bundle is given in its scope. -/
theorem Equipped.exists_entry (equipped : assembly.Equipped) {installation : Installation}
    (member : installation ∈ assembly.installations) {own : TracingConfig}
    (finish : installation.bundle.finish = .tracing own) :
    ∃ (index : Nat) (entry : Entry), assembly.entries[index]? = some entry ∧
      entry.scope = installation.scope ∧ entry.setting? = some own := by
  have listed : (installation.scope, own) ∈ assembly.tracings :=
    List.mem_filterMap.mpr ⟨installation, member,
      Option.map_eq_some_iff.mpr ⟨own, Bundle.tracing?_eq_some_iff.mpr finish, rfl⟩⟩
  obtain ⟨entry, among, gives⟩ := List.mem_filterMap.mp (equipped.subset listed)
  obtain ⟨index, found⟩ := List.getElem?_of_mem among
  obtain ⟨setting, given, same⟩ := Option.map_eq_some_iff.mp gives
  obtain ⟨scope, config⟩ := Prod.mk.inj same
  exact ⟨index, entry, found, scope, config ▸ given⟩

variable {applications : List Application} {memory : Memory} {application : Application}
  {state : Memory × Compiled}

/-- The pool of a scope gives the configuration that is given in the scope, whatever is given
around it. -/
theorem Compiles.getKeyed_setting
    (compiles : assembly.Compiles applications memory application state)
    (wellFormed : assembly.WellFormed offered) {index : Nat} {entry : Entry} {own : TracingConfig}
    (found : assembly.entries[index]? = some entry) (gives : entry.setting? = some own) :
    ∃ pool handle, application.pools[entry.scope.index]? = some pool ∧
      handle.value.as? .tracingConfig = some own ∧
      ∀ others memory, pool.getKeyed others (Key.of .tracingConfig) .tracingConfig memory =
        (.value (.ok handle), memory) := by
  obtain ⟨key, handle, origin, content⟩ := Entry.setting?_eq_some_iff.mp gives
  obtain ⟨pool, visible, place, listed, known⟩ := compiles.exists_own wellFormed found
  have shape := compiles.steps.shaped.shape (blueprint_found wellFormed found) known
  rw [origin] at shape
  obtain ⟨number, constant⟩ := shape
  have typed : handle.type = .tracingConfig :=
    Value.as?_isSome_iff.mp (Option.isSome_iff_exists.mpr ⟨own, content⟩)
  refine ⟨pool, handle, place, content, fun others memory => ?_⟩
  -- The own layer of the pool comes before all others.
  have nearest : pool.find? (Key.of .tracingConfig) = some visible := by
    rw [Pool.find?, Pool.layers, List.findSome?_cons, ← key, listed]
  have reads : visible.get others .tracingConfig memory = (.value (.ok handle), memory) := by
    have fits : expectType visible.key .tracingConfig (.ok handle) = .ok handle := if_pos typed
    rw [← fits, RuntimeEntry.get, RuntimeEntry.getInstance, constant]
    rfl
  rw [Pool.getKeyed, Pool.withEntry, nearest]
  dsimp only
  rw [Attempt.bind_apply, reads]
  rfl

/-- A bundle of tracing that finds its configuration puts it in force. -/
theorem finishWith_tracing {bundle : Bundle} {own config : TracingConfig} {pool : Pool}
    {handle : Instance} (finish : bundle.finish = .tracing own)
    (gets : pool.getKeyed applications (Key.of .tracingConfig) .tracingConfig memory =
      (.value (.ok handle), memory))
    (content : handle.value.as? .tracingConfig = some config) :
    bundle.finishWith applications pool memory =
      (.value (), memory.report (.tracingInitialized config.level config.format pool.name)) := by
  have asks : Build.ask (pool.getKeyed applications (Key.of .tracingConfig) .tracingConfig) memory =
      (.value (.ok handle), memory) := by
    rw [Build.ask, Attempt.mapError, gets]
  rw [Bundle.finishWith, finish]
  dsimp only
  rw [startTracing, Attempt.bind_apply, asks]
  dsimp only
  rw [content]
  rfl

/-- Every bundle of tracing finishes with its own configuration. Whatever is declared in an assembly
by calls whose bundles of tracing are genuine, also by calls that are refused, when the assembly is
built the bundles of tracing stand in different scopes. All bundles finish in turn, unless one of
them is broken off, and the pool with which a bundle of tracing finishes has the name of its scope
and gives the configuration with which the bundle was made, at any time; so this is the one that is
put in force. -/
theorem tracing_finishes_own {number : Nat} {config : Config}
    (equips : ReflTransGen (Equips offered) (new number config) assembly)
    {applications : List Application} {memory after : Memory} {application : Application}
    (builds : assembly.build applications memory = (.value application, after)) :
    (assembly.installations.Pairwise fun first second => ∀ own other,
      first.bundle.finish = .tracing own → second.bundle.finish = .tracing other →
        first.scope ≠ second.scope) ∧
    (application.halt = none → ∃ compiled last,
      Finishes applications application assembly.installations compiled last ∧
        after = last.report (.assemblyBuilt assembly.config.name)) ∧
    ∀ installation ∈ assembly.installations, ∀ own, installation.bundle.finish = .tracing own →
      ∃ pool, application.pools[installation.scope.index]? = some pool ∧
        pool.name = assembly.scopeName installation.scope ∧
        ∀ (others : List Application) (memory : Memory),
          (∃ handle, pool.getKeyed others (Key.of .tracingConfig) .tracingConfig memory =
              (.value (.ok handle), memory) ∧
            handle.value.as? .tracingConfig = some own) ∧
          installation.bundle.finishWith others pool memory =
            (.value (), memory.report (.tracingInitialized own.level own.format pool.name)) := by
  obtain ⟨regular, equipped⟩ := regular_equipped equips
  have wellFormed := regular.wellFormed
  obtain ⟨state, compiles, finish⟩ := (build_yields wellFormed applications memory).of_value builds
  refine ⟨equipped.pairwise wellFormed compiles.accepted, fun whole => ?_, ?_⟩
  · obtain ⟨last, finished, rfl⟩ := finishEach_of_finish finish whole
    refine ⟨state.1, last, finishes_of_finishEach (fun installation member => ?_) finished, rfl⟩
    rw [compiles.length]
    exact regular.named.installed installation member
  · intro installation member own finish
    obtain ⟨index, entry, found, scope, gives⟩ := equipped.exists_entry member finish
    obtain ⟨pool, handle, place, content, gets⟩ :=
      compiles.getKeyed_setting wellFormed found gives
    rw [scope] at place
    refine ⟨pool, place, ?_, fun others memory => ⟨⟨handle, gets others memory, content⟩,
      finishWith_tracing finish (gets others memory) content⟩⟩
    obtain ⟨data, here⟩ : ∃ data, assembly.scopes[installation.scope.index]? = some data :=
      ⟨_, List.getElem?_eq_getElem (regular.named.installed installation member)⟩
    obtain ⟨other, -, same, -, name⟩ := compiles.exists_pool here
    obtain rfl := Option.some.inj (place.symm.trans same)
    rw [name, scopeName, here]
    rfl

theorem genuine_tracing (own : TracingConfig) : (Package.tracing own).Genuine := by
  intro other finish
  rw [Finish.tracing.inj finish]

theorem genuine_default (own : TracingConfig) : (Package.default own).install.Genuine :=
  ⟨nofun, fun _ => ⟨⟨nofun, fun _ => ⟨trivial, trivial⟩⟩,
    ⟨genuine_tracing own, fun _ => ⟨trivial, trivial⟩⟩, trivial⟩⟩

/-- An assembly whose root has the default bundles, and below it a bundle of tracing of its own. -/
def traced : Assembly :=
  let rooted := (declareIn .root (Package.default { level := .warn }).install
    (new 0 (.named "app"), [])).2.1
  (declareIn .root ((Package.tracing { level := .debug }).link "child") (rooted, [])).2.1

theorem equips_traced (offered : Pool → Prop) :
    ReflTransGen (Equips offered) (new 0 (.named "app")) traced :=
  (ReflTransGen.single (.declare _ _ _
    (fun _ => ⟨fun _ => ⟨trivial, trivial⟩, fun _ => ⟨trivial, trivial⟩, trivial⟩)
    (genuine_default _))).tail
    (.declare _ _ _ (fun _ => ⟨trivial, trivial⟩)
      ⟨genuine_tracing _, fun _ => ⟨trivial, trivial⟩⟩)

end Assembly

/-- The bundle below the root puts its own configuration in force, not that of the root. -/
theorem Assembly.tracing_finishes_own_sample :
    ∃ application after pool, traced.build [] .empty = (.value application, after) ∧
      application.pools[1]? = some pool ∧
      (Package.tracing { level := .debug }).bundle.finishWith [] pool after =
        (.value (), after.report (.tracingInitialized .debug .pretty pool.name)) := by
  obtain ⟨application, after, builds⟩ := traced.exists_application [] .empty (by decide +kernel)
  obtain ⟨-, -, finishes⟩ := tracing_finishes_own (equips_traced fun _ => True) builds
  have last : traced.installations[3]? =
      some ⟨⟨1⟩, (Package.tracing { level := .debug }).bundle⟩ := rfl
  have installed := List.mem_of_getElem? last
  obtain ⟨pool, place, -, ends⟩ := finishes _ installed _ rfl
  exact ⟨application, after, pool, builds, place, (ends [] after).2⟩

end Wiring
