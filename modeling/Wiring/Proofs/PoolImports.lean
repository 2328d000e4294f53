import Wiring.Proofs.Backing
import Wiring.Proofs.Linkages
import Wiring.Proofs.Purity
import Wiring.Proofs.Records
import Wiring.Stock

/-!
Imports from built pools. An assembly that does nothing but import a pool into its root is built
exactly when the steps of the import keep the visible keys apart. Its root then shows what the pool
shows, entry by entry and in the same order, under the keys that the steps give. Such roots can be
imported in turn, and a chain of imports does what all its steps together do.
-/

namespace Wiring

/-- The entry under another key. -/
def RuntimeEntry.renamed (entry : RuntimeEntry) (key : Key) : RuntimeEntry :=
  { entry with key := key }

namespace RuntimeEntry

variable (entry : RuntimeEntry) (key : Key)

@[simp] theorem renamed_key : (entry.renamed key).key = key := rfl

@[simp] theorem renamed_accessor : (entry.renamed key).accessor = entry.accessor := rfl

@[simp] theorem renamed_description : (entry.renamed key).description = entry.description := rfl

@[simp] theorem renamed_self : entry.renamed entry.key = entry := rfl

@[simp] theorem renamed_renamed (other : Key) :
    (entry.renamed key).renamed other = entry.renamed other := rfl

end RuntimeEntry

namespace ImportSpec

/-- Steps are taken one after the other. -/
theorem applyAll_append (ops more : List ImportOp) (key : Key) :
    applyAll (ops ++ more) key = (applyAll ops key).bind (applyAll more) := by
  induction ops generalizing key with
  | nil => rfl
  | cons op rest ih =>
    rw [List.cons_append, applyAll, applyAll, Option.bind_assoc]
    exact congrArg _ (funext ih)

end ImportSpec

namespace Pool

/-- The steps give different keys to different keys of the pool, as far as they keep them. -/
def KeepsApart (pool : Pool) (ops : List ImportOp) : Prop :=
  ∀ first second key, pool.contains first = true → pool.contains second = true →
    ImportSpec.applyAll ops first = some key → ImportSpec.applyAll ops second = some key →
    first = second

/-- The visible entries that the steps keep, each with its new key. -/
def kept (pool : Pool) (ops : List ImportOp) : List (Key × RuntimeEntry) :=
  pool.visibleEntries.filterMap fun entry =>
    (ImportSpec.applyAll ops entry.key).map fun key => (key, entry)

/-- The second pool shows what the first one shows, under the keys that the steps give: an entry
that is found there has the accessor, the mode and the description of the entry under the old key,
and the visible services stand in the same order. -/
structure Carries (source : Pool) (ops : List ImportOp) (target : Pool) : Prop where
  found : ∀ key entry, target.find? key = some entry ↔ ∃ known old,
    source.find? known = some old ∧ ImportSpec.applyAll ops known = some key ∧
      entry = old.renamed key
  visible : target.visibleEntries =
    (source.kept ops).map fun pair => pair.2.renamed pair.1
  services : target.services.map ServiceDescriptor.key =
    (source.services.map ServiceDescriptor.key).filterMap (ImportSpec.applyAll ops)

variable {pool source middle target : Pool} {ops more : List ImportOp} {key : Key}

/-- The keys of the listing are those of the visible entries. -/
theorem keys_services (pool : Pool) :
    pool.services.map ServiceDescriptor.key = pool.visibleEntries.map RuntimeEntry.key := by
  rw [services, visibleEntries, List.map_map, List.map_map]
  rfl

theorem keys_kept (pool : Pool) (ops : List ImportOp) : (pool.kept ops).map Prod.fst =
    (pool.visibleEntries.map RuntimeEntry.key).filterMap (ImportSpec.applyAll ops) := by
  rw [kept, List.map_filterMap, List.filterMap_map]
  refine List.filterMap_congr fun entry _ => ?_
  rw [Option.map_map, Function.comp_apply]
  exact Option.map_id'

theorem mem_kept {pair : Key × RuntimeEntry} : pair ∈ pool.kept ops ↔
    pair.2 ∈ pool.visibleEntries ∧ ImportSpec.applyAll ops pair.2.key = some pair.1 := by
  obtain ⟨key, entry⟩ := pair
  rw [kept, List.mem_filterMap]
  constructor
  · rintro ⟨old, member, same⟩
    obtain ⟨other, applied, made⟩ := Option.map_eq_some_iff.mp same
    obtain ⟨rfl, rfl⟩ := Prod.mk.inj made
    exact ⟨member, applied⟩
  · rintro ⟨member, applied⟩
    exact ⟨entry, member, by rw [applied, Option.map_some]⟩

theorem Typed.mem_keys (typed : pool.Typed) :
    key ∈ pool.visibleEntries.map RuntimeEntry.key ↔ pool.contains key = true := by
  rw [List.mem_map, contains, Option.isSome_iff_exists]
  constructor
  · rintro ⟨entry, member, rfl⟩
    exact ⟨entry, typed.mem_visibleEntries.mp member⟩
  · rintro ⟨entry, found⟩
    obtain rfl := (typed.of_find? found).1
    exact ⟨entry, typed.mem_visibleEntries.mpr found, rfl⟩

/-- The new keys are distinct when the steps keep the old ones apart. -/
theorem Typed.nodup_kept (typed : pool.Typed) :
    ((pool.kept ops).map Prod.fst).Nodup ↔ pool.KeepsApart ops := by
  have symmetric : Std.Symm fun first second : Key =>
      ∀ key, ImportSpec.applyAll ops first = some key →
        ∀ other, ImportSpec.applyAll ops second = some other → key ≠ other :=
    ⟨fun _ _ apart key applied other applied' same => apart other applied' key applied same.symm⟩
  rw [keys_kept, List.Nodup, List.pairwise_filterMap]
  constructor
  · intro apart first second key held held' applied applied'
    by_contra different
    exact apart.forall (typed.mem_keys.mpr held) (typed.mem_keys.mpr held') different
      key applied key applied' rfl
  · intro apart
    refine pool.nodup_visibleEntries.imp_of_mem fun {first second} member member' different => ?_
    rintro key applied _ applied' rfl
    exact different (apart first second key (typed.mem_keys.mp member) (typed.mem_keys.mp member')
      applied applied')

/-- It is enough to know the visible entries. -/
theorem Carries.of_visible (typed : source.Typed) (typed' : target.Typed)
    (visible : target.visibleEntries = (source.kept ops).map fun pair => pair.2.renamed pair.1) :
    source.Carries ops target where
  visible := visible
  services := by
    rw [keys_services, keys_services, visible, List.map_map, ← keys_kept]
    rfl
  found key entry := by
    have listed : entry ∈ target.visibleEntries ↔ ∃ old, source.find? old.key = some old ∧
        ImportSpec.applyAll ops old.key = some entry.key ∧ entry = old.renamed entry.key := by
      rw [visible, List.mem_map]
      constructor
      · rintro ⟨pair, member, rfl⟩
        obtain ⟨seen, applied⟩ := mem_kept.mp member
        exact ⟨pair.2, typed.mem_visibleEntries.mp seen, applied, rfl⟩
      · rintro ⟨old, found, applied, same⟩
        exact ⟨(entry.key, old), mem_kept.mpr ⟨typed.mem_visibleEntries.mpr found, applied⟩,
          same.symm⟩
    constructor
    · intro found
      obtain rfl := (typed'.of_find? found).1
      obtain ⟨old, held, applied, same⟩ := listed.mp (typed'.mem_visibleEntries.mpr found)
      exact ⟨old.key, old, held, applied, same⟩
    · rintro ⟨known, old, held, applied, rfl⟩
      obtain rfl := (typed.of_find? held).1
      exact typed'.mem_visibleEntries.mp (listed.mpr ⟨old, held, applied, rfl⟩)

theorem kept_nil (pool : Pool) :
    (pool.kept []).map (fun pair => pair.2.renamed pair.1) = pool.visibleEntries := by
  rw [kept, List.map_filterMap]
  exact List.filterMap_some

/-- Every pool carries itself, when there are no steps. -/
theorem Carries.refl (typed : pool.Typed) : pool.Carries [] pool :=
  .of_visible typed typed pool.kept_nil.symm

/-- The steps of two imports follow each other. -/
theorem Carries.trans (typed : source.Typed) (typed' : target.Typed)
    (carries : source.Carries ops middle) (onward : middle.Carries more target) :
    source.Carries (ops ++ more) target := by
  refine .of_visible typed typed' ?_
  rw [onward.visible, kept, carries.visible, kept, kept, List.map_filterMap, List.map_filterMap,
    List.map_filterMap, List.filterMap_filterMap]
  refine List.filterMap_congr fun entry _ => ?_
  rw [ImportSpec.applyAll_append]
  cases ImportSpec.applyAll ops entry.key with
  | none => rfl
  | some key =>
    simp only [Option.map_some, Option.bind_some, Option.map_map]
    rfl

/-- Without steps every lookup has the same answer. -/
theorem Carries.find?_eq (carries : source.Carries [] target) (typed : source.Typed) (key : Key) :
    target.find? key = source.find? key := by
  refine Option.ext fun entry => ?_
  rw [carries.found]
  constructor
  · rintro ⟨known, old, found, applied, rfl⟩
    obtain rfl := Option.some.inj applied
    obtain rfl := (typed.of_find? found).1
    exact found
  · intro found
    obtain rfl := (typed.of_find? found).1
    exact ⟨entry.key, entry, found, rfl, rfl⟩

theorem keepsApart_nil (pool : Pool) : pool.KeepsApart [] :=
  fun _ _ _ _ _ applied applied' => Option.some.inj (applied.trans applied'.symm)

/-- Pairs with distinct keys are all nearest. -/
theorem nearest_of_nodup {pairs : List (Layer × RuntimeEntry)} {seen : List Key}
    (distinct : (pairs.map fun pair => pair.2.key).Nodup)
    (fresh : ∀ pair ∈ pairs, pair.2.key ∉ seen) : nearest pairs seen = pairs := by
  induction pairs generalizing seen with
  | nil => rfl
  | cons first rest ih =>
    obtain ⟨absent, distinct⟩ := List.nodup_cons.mp distinct
    have new := fresh first List.mem_cons_self
    rw [nearest, if_neg (by rwa [List.contains_iff_mem]), ih distinct]
    intro pair later
    rw [List.mem_cons, not_or]
    refine ⟨fun same => absent ?_, fresh pair (List.mem_cons_of_mem _ later)⟩
    exact List.mem_map.mpr ⟨pair, later, same⟩

/-- A pool without ancestors shows its own entries, when their keys are distinct. -/
theorem visibleEntries_of_alone (alone : pool.ancestors = [])
    (distinct : (pool.localEntries.map RuntimeEntry.key).Nodup) :
    pool.visibleEntries = pool.localEntries := by
  have layered : pool.localEntries = (pool.localEntries.map fun entry => (pool.layer, entry)).map
      Prod.snd := by
    rw [List.map_map]
    exact (List.map_id' _).symm
  rw [visibleEntries, walk, layers, alone, List.flatMap_singleton, ← localEntries,
    nearest_of_nodup ?_ fun _ _ => List.not_mem_nil, ← layered]
  rw [List.map_map]
  exact distinct

end Pool

/-- The new keys with the entries that they lead to. -/
def Pool.keptRow (pool : Pool) (ops : List ImportOp) : Row :=
  (pool.kept ops).map fun pair => (pair.1, .foreign pair.2)

theorem Pool.keys_keptRow (pool : Pool) (ops : List ImportOp) :
    (pool.keptRow ops).keys = (pool.kept ops).map Prod.fst := by
  rw [Row.keys, keptRow, List.map_map]
  rfl

/-- A root scope in which nothing is declared but the import of a pool. -/
def Scope.importing (name : String) (pool : Pool) (ops : List ImportOp) : Scope :=
  { Scope.empty name none with imports := [⟨⟨.pool pool, ops⟩, none⟩] }

/-- What the import keeps is all that is offered to the scope. -/
theorem Scope.offers_importing (name : String) (pool : Pool) (ops : List ImportOp)
    (rows : ScopeId → Row) : (importing name pool ops).offers [] rows = pool.keptRow ops := by
  change [] ++ (ImportSpec.keeps ⟨.pool pool, ops⟩ _ ++ []) = _
  rw [List.nil_append, List.append_nil, ImportSpec.keeps, ImportSource.row, List.filterMap_map,
    Pool.keptRow, Pool.kept, List.map_filterMap]
  refine List.filterMap_congr fun entry _ => ?_
  rw [Option.map_map]
  rfl

namespace Assembly

/-- An assembly in which nothing is declared but the import of a pool into its root. -/
def importing (number : Nat) (config : Config) (pool : Pool) (ops : List ImportOp) : Assembly :=
  (new number config).addImport .root ⟨.pool pool, ops⟩

variable {offered : Pool → Prop} {number : Nat} {config : Config} {pool : Pool}
  {ops : List ImportOp} {applications : List Application} {memory : Memory}
  {application : Application} {state : Memory × Compiled}

theorem entries_importing : (importing number config pool ops).entries = [] := rfl

theorem root_importing : (importing number config pool ops).scopes[0]? =
    some (.importing config.name pool ops) := rfl

/-- There is no scope but the root. -/
theorem eq_of_getElem?_importing {index : Nat} {data : Scope}
    (here : (importing number config pool ops).scopes[index]? = some data) :
    data = .importing config.name pool ops := by
  cases index with
  | zero => exact (Option.some.inj here).symm
  | succ index => cases here

/-- Nothing is exported. -/
theorem exportedDraft_importing : (importing number config pool ops).exportedDraft =
    (importing number config pool ops).populatedDraft := rfl

theorem importCycles_importing
    (wellFormed : (importing number config pool ops).WellFormed offered) :
    importCycles (importing number config pool ops).scopes = [] := by
  refine (importCycles_eq_nil wellFormed.contained).mpr fun index => ⟨_, fun source member => ?_⟩
  cases index <;> cases member

/-- The import is accepted when it keeps the keys apart. -/
theorem accepted_importing (wellFormed : (importing number config pool ops).WellFormed offered)
    (typed : pool.Typed) :
    (importing number config pool ops).survey.accepted = true ↔ pool.KeepsApart ops := by
  rw [survey_accepted_iff, exportedDraft_importing, populatedDraft_isEmpty wellFormed,
    ← typed.nodup_kept, ← pool.keys_keptRow]
  constructor
  · rintro ⟨⟨-, distinct⟩, -⟩
    have offered := distinct 0 _ root_importing
    rwa [entries_importing, Scope.offers_importing] at offered
  · intro distinct
    have sound := exportedDraft_sound wellFormed
    rw [exportedDraft_importing] at sound
    refine ⟨⟨importCycles_importing wellFormed, fun index data here => ?_⟩, ?_, ?_, .inr ?_⟩
    · rwa [eq_of_getElem?_importing here, entries_importing, Scope.offers_importing]
    · refine sound.needs_met_iff.mpr fun index entry declared => ?_
      cases declared
    · refine (sound.dependencyCycles_eq_nil wellFormed).mpr fun index => ⟨_, fun next member => ?_⟩
      obtain ⟨entry, -, -, -, declared, -⟩ := (sound.mem_factoriesBehind wellFormed).mp member
      cases declared
    · refine (sound.shadowings_eq_nil wellFormed fun scope =>
        nodup_populatedDraft wellFormed (some scope)).mpr ?_
      intro scope data parent key target hidden here above
      rw [eq_of_getElem?_importing here] at above
      cases above

/-- The root holds what the import keeps. -/
theorem rowOf_importing (wellFormed : (importing number config pool ops).WellFormed offered)
    (distinct : (pool.keptRow ops).keys.Nodup) :
    (importing number config pool ops).exportedDraft.rowOf (some .root) = pool.keptRow ops := by
  have filled := row_populatedDraft wellFormed (importCycles_importing wellFormed) root_importing
  refine filled.trans ?_
  rw [entries_importing, Scope.offers_importing]
  exact Row.Fresh.receiveAll_eq (Row.fresh_nil.mpr distinct)

/-- There is no factory to call. -/
theorem not_prepares_importing
    (wellFormed : (importing number config pool ops).WellFormed offered) {compiled : Compiled}
    {id : EntryId} {entry : Entry} {factory : Factory} {dependencies : List (Key × Accessor)} :
    ¬ Blueprint.Prepares ((importing number config pool ops).blueprint
      (importing number config pool ops).survey) .constant compiled id entry factory
      dependencies := by
  intro prepares
  have found := prepares.found
  rw [blueprint_entries] at found
  rcases (exportedDraft_sound wellFormed).entry_cases found with
    declared | ⟨-, -, target, origin, -⟩
  · cases declared
  · exact absurd (prepares.origin.symm.trans origin) nofun

/-- The build gives an application or the problems of the resolution. -/
theorem build_importing (wellFormed : (importing number config pool ops).WellFormed offered)
    (applications : List Application) (memory : Memory) :
    ((importing number config pool ops).build applications).Yields memory
      (fun application _ => ∃ state,
        (importing number config pool ops).Compiles applications memory application state ∧
        (importing number config pool ops).Describes application ∧ application.halt = none)
      (fun error _ => (importing number config pool ops).survey.accepted = false ∧
        error = .invalid (importing number config pool ops).survey.diagnostics)
      fun _ => False := by
  refine ((build_yields wellFormed applications memory).of_gives
    (gives_build _ applications)).mono ?_ ?_ ?_
  · rintro application after ⟨⟨state, compiles, finish⟩, describes⟩
    refine ⟨state, compiles, describes, ?_⟩
    -- There is no bundle that could be broken off.
    rcases finish_cases finish with ⟨whole, -⟩ | ⟨-, ending, finished, broken⟩
    · exact whole
    · exact absurd (Prod.mk.inj finished).1.symm broken
  · rintro error after (⟨refused, rfl, -⟩ | ⟨-, state, fails, -⟩)
    · exact ⟨refused, rfl⟩
    · obtain ⟨middle, id, entry, factory, dependencies, cause, -, prepares, -⟩ := fails
      exact (not_prepares_importing wellFormed prepares).elim
  · rintro after ⟨-, state, breaks, -⟩
    obtain ⟨middle, id, entry, factory, dependencies, -, prepares, -⟩ := breaks
    exact not_prepares_importing wellFormed prepares

/-- The root pool has the given name, and shows what the import keeps. -/
theorem Compiles.exists_root_importing
    (wellFormed : (importing number config pool ops).WellFormed offered)
    (typed : pool.Typed)
    (compiles : (importing number config pool ops).Compiles applications memory application state)
    (describes : (importing number config pool ops).Describes application) :
    ∃ root, application.poolAt? (.scope 0) = some root ∧ root.name = config.name ∧
      root.visibleEntries = (pool.kept ops).map fun pair => pair.2.renamed pair.1 := by
  obtain ⟨root, registry, found, -, name⟩ := compiles.exists_pool root_importing
  have alone := (compiles.ancestors_eq wellFormed root_importing found).1 rfl
  have distinct := typed.nodup_kept.mpr ((accepted_importing wellFormed typed).mp compiles.accepted)
  have place : application.poolFor? (some .root) = some root := found
  have rendered := compiles.renders_row describes wellFormed place
  rw [rowOf_importing wellFormed (by rwa [pool.keys_keptRow]), Pool.keptRow,
    List.forall₂_map_left_iff] at rendered
  have entries : root.localEntries = (pool.kept ops).map fun pair => pair.2.renamed pair.1 := by
    refine map_eq_map_of_forall₂ rendered fun pair item fits => ?_
    obtain ⟨-, key, accessor, description⟩ := fits
    rcases item with ⟨_, ⟨_, _, _⟩⟩
    cases key
    cases accessor
    cases description
    rfl
  refine ⟨root, found, name, ?_⟩
  rw [← entries, Pool.visibleEntries_of_alone alone]
  rw [entries, List.map_map]
  exact distinct

end Assembly

namespace Host

variable {host : Host} {config : Config} {pool : Pool} {ops : List ImportOp}

/-- The host after it began an assembly and declared the import of a pool into its root. -/
def importing (host : Host) (config : Config) (pool : Pool) (ops : List ImportOp) : Host :=
  ((host.start config).declare (declareIn .root (.importFrom (.pool pool) ops))).2

theorem leads_importing (offers : host.Offers pool) (config : Config) (ops : List ImportOp) :
    host.Leads (host.importing config pool ops) := by
  refine .head (.start host config) (.single (.declare _ .root _ ?_))
  rintro _ ⟨⟩
  exact offers

/-- Steps that are in order are declared. -/
theorem importing_eq (checked : ImportSpec.checkAll ops = .ok ()) :
    host.importing config pool ops =
      { host.start config with assembly := some (.importing host.begun config pool ops) } := by
  have declared : declareIn .root (.importFrom (.pool pool) ops)
      (Assembly.new host.begun config, []) =
      (.value .done, (Assembly.importing host.begun config pool ops, [])) := by
    have made : ImportSpec.make (.pool pool) ops = .ok ⟨.pool pool, ops⟩ := by
      rw [ImportSpec.make, checked]
      rfl
    simp only [declareIn, Declaration.apply, declareImport, made]
    rfl
  unfold importing Host.declare Host.start
  dsimp only
  rw [declared]
  rfl

theorem assembly_importing (checked : ImportSpec.checkAll ops = .ok ()) :
    (host.importing config pool ops).assembly = some (.importing host.begun config pool ops) := by
  rw [importing_eq checked]

/-- How the build of an import ends: with an application whose root carries what the pool shows, or
with the problems of the resolution. -/
theorem Sound.build_importing (sound : host.Sound) (offers : host.Offers pool)
    (checked : ImportSpec.checkAll ops = .ok ()) (config : Config) :
    (pool.KeepsApart ops ∧ ∃ application root, (host.importing config pool ops).build.1 =
        some (.application host.built.length application) ∧
      application.poolAt? (.scope 0) = some root ∧ root.name = config.name ∧
      pool.Carries ops root) ∨
    (¬ pool.KeepsApart ops ∧ ∃ diagnostics, (host.importing config pool ops).build.1 =
      some (.failed (.invalid diagnostics))) := by
  have later := sound.leads (leads_importing offers config ops)
  have current : (host.importing config pool ops).assembly = _ := assembly_importing checked
  have same : (host.importing config pool ops).built = host.built := by
    rw [importing_eq checked]
    rfl
  have wellFormed := later.wellFormed _ current
  have typed := sound.typed pool offers
  have yields := Assembly.build_importing wellFormed
    (host.importing config pool ops).applications (host.importing config pool ops).memory
  have accepted := Assembly.accepted_importing wellFormed typed
  unfold Attempt.Yields at yields
  unfold Host.build
  rw [current]
  dsimp only
  generalize (Assembly.importing host.begun config pool ops).build _ _ = result at yields ⊢
  obtain ⟨ending, after⟩ := result
  cases ending with
  | panic message => exact yields.elim
  | exhausted => exact yields.elim
  | error error =>
    obtain ⟨refused, rfl⟩ := yields
    rw [← accepted, refused]
    exact .inr ⟨Bool.false_ne_true, _, rfl⟩
  | value application =>
    obtain ⟨state, compiles, describes, whole⟩ := yields
    obtain ⟨root, found, name, visible⟩ :=
      compiles.exists_root_importing wellFormed typed describes
    have held : root.Typed :=
      later.typed_build current compiles (.inl (List.mem_of_getElem? found))
    refine .inl ⟨accepted.mp compiles.accepted, application, root, ?_, found, name, ?_⟩
    · simp only [Built.of, whole, same]
    · exact .of_visible typed held visible

/-- One assembly after the other is built that does nothing but import a pool into its root: the
first one the given pool, and each next one the root of the one before. Whatever else the host does
may come in between. -/
inductive Relays : Host → Pool → List (Config × List ImportOp) → Host → Pool → Prop
  | done (host : Host) (pool : Pool) : Relays host pool [] host pool
  | next {host middle last : Host} {pool root final : Pool} {config : Config}
      {ops : List ImportOp} {steps : List (Config × List ImportOp)} {number : Nat}
      {application : Application} (leads : host.Leads middle)
      (checked : ImportSpec.checkAll ops = .ok ())
      (built : (middle.importing config pool ops).build.1 =
        some (.application number application))
      (found : application.poolAt? (.scope 0) = some root)
      (rest : Relays (middle.importing config pool ops).build.2 root steps last final) :
      Relays host pool ((config, ops) :: steps) last final

/-- The host offers the root of an import that was built, and the root carries the pool. -/
theorem Sound.of_built (sound : host.Sound) (offers : host.Offers pool)
    (checked : ImportSpec.checkAll ops = .ok ()) {number : Nat} {application : Application}
    (built : (host.importing config pool ops).build.1 = some (.application number application)) :
    pool.KeepsApart ops ∧ ∃ root, application.poolAt? (.scope 0) = some root ∧
      root.name = config.name ∧ pool.Carries ops root ∧
      (host.importing config pool ops).build.2.Offers root := by
  rcases sound.build_importing offers checked config with
    ⟨apart, other, root, gives, found, name, carries⟩ | ⟨-, diagnostics, refused⟩
  · obtain ⟨-, rfl⟩ : number = _ ∧ application = other := by
      simpa using built.symm.trans gives
    obtain ⟨after, -, same, -⟩ := build_of_application (assembly_importing checked) built
    refine ⟨apart, root, found, name, carries, application, ?_,
      .inl (List.mem_of_getElem? found)⟩
    rw [same]
    exact List.mem_append_right _ List.mem_cons_self
  · simp [refused] at built

/-- A chain of imports does what all its steps together do. -/
theorem Relays.carries {last : Host} {final : Pool} {steps : List (Config × List ImportOp)}
    (relays : host.Relays pool steps last final) (sound : host.Sound) (offers : host.Offers pool) :
    final.Typed ∧ pool.Carries (steps.flatMap Prod.snd) final := by
  induction relays with
  | done host pool => exact ⟨sound.typed pool offers, .refl (sound.typed pool offers)⟩
  | @next host middle last pool root final config ops steps number application leads checked built
      found _ ih =>
    have later := sound.leads leads
    have offered := offers.leads leads
    obtain ⟨-, other, place, -, carries, onward⟩ := later.of_built offered checked built
    obtain rfl := Option.some.inj (place.symm.trans found)
    obtain ⟨typed, rest⟩ := ih (later.leads (leads_importing offered config ops)).build onward
    exact ⟨typed, carries.trans (sound.typed pool offers) typed rest⟩

/-- An import without steps is always built, and so is any chain of them. -/
theorem Sound.exists_relays (sound : host.Sound) (offers : host.Offers pool)
    (configs : List Config) :
    ∃ last final, host.Relays pool (configs.map fun config => (config, [])) last final := by
  induction configs generalizing host pool with
  | nil => exact ⟨host, pool, .done host pool⟩
  | cons config rest ih =>
    have checked : ImportSpec.checkAll [] = .ok () := rfl
    rcases sound.build_importing offers checked config with
      ⟨-, application, root, built, found, -⟩ | ⟨collides, -⟩
    · have later := (sound.leads (leads_importing offers config [])).build
      obtain ⟨-, other, place, -, -, onward⟩ := sound.of_built offers checked built
      obtain rfl := Option.some.inj (place.symm.trans found)
      obtain ⟨last, final, relays⟩ := ih later onward
      exact ⟨last, final, .next .refl checked built found relays⟩
    · exact absurd pool.keepsApart_nil collides

/-- To import a built pool is faithful under every transform. An assembly in which nothing is
declared but the import of the pool into its root is built if and only if no two visible keys of the
pool come to one key, and is refused otherwise. When it is built, its root finds an entry under a
key if and only if some visible key of the pool comes to it; the entry has the accessor, the mode
and the description that the pool has there, and the services of the root stand in the order of the
pool. Without steps every import is built, also one after the other from root to root, and each
lookup in the end has the answer of the pool. A chain of imports with any steps does what all its
steps together do. -/
theorem Reachable.imports_faithfully (reachable : host.Reachable) (offers : host.Offers pool) :
    (∀ (config : Config) (ops : List ImportOp), ImportSpec.checkAll ops = .ok () →
      ((∃ number application, (host.importing config pool ops).build.1 =
          some (.application number application)) ↔ pool.KeepsApart ops) ∧
      (¬ pool.KeepsApart ops → ∃ diagnostics, (host.importing config pool ops).build.1 =
          some (.failed (.invalid diagnostics))) ∧
      ∀ (number : Nat) (application : Application), (host.importing config pool ops).build.1 =
          some (.application number application) →
        ∃ root, application.poolAt? (.scope 0) = some root ∧ root.name = config.name ∧
          pool.Carries ops root) ∧
    (∀ configs : List Config, ∃ (last : Host) (final : Pool),
      host.Relays pool (configs.map fun config => (config, [])) last final) ∧
    ∀ (steps : List (Config × List ImportOp)) (last : Host) (final : Pool),
      host.Relays pool steps last final → pool.Carries (steps.flatMap Prod.snd) final ∧
        ((∀ step ∈ steps, step.2 = []) → ∀ key, final.find? key = pool.find? key) := by
  have sound := reachable.sound
  refine ⟨fun config ops checked => ⟨⟨?_, fun apart => ?_⟩, fun collides => ?_, ?_⟩,
    sound.exists_relays offers, fun steps last final relays => ?_⟩
  · rintro ⟨number, application, built⟩
    exact (sound.of_built offers checked built).1
  · rcases sound.build_importing offers checked config with
      ⟨-, application, -, built, -⟩ | ⟨collides, -⟩
    · exact ⟨_, application, built⟩
    · exact absurd apart collides
  · rcases sound.build_importing offers checked config with ⟨apart, -⟩ | ⟨-, refused⟩
    · exact absurd apart collides
    · exact refused
  · intro number application built
    obtain ⟨-, root, found, name, carries, -⟩ := sound.of_built offers checked built
    exact ⟨root, found, name, carries⟩
  · obtain ⟨-, carries⟩ := relays.carries sound offers
    refine ⟨carries, fun plain => ?_⟩
    rw [List.flatMap_eq_nil_iff.mpr plain] at carries
    exact carries.find?_eq (sound.typed pool offers)

/-- A host that is about to build two numbers in its root scope and, below, a scope that hides one
of them and adds a third. -/
def overlaid : Host :=
  (Host.new.start (.named "outer")).declareEach
    [.provide (.given (.ofParts .u8 7 "") none) [], .provide (.given (.ofParts .u16 1 "") none) [],
      .link "inner" ⟨"inner", .nothing⟩ fun _ =>
        [.provide (.given (.ofParts .u8 8 "") none) [],
          .provide (.given (.ofParts .u8 9 "") (some (.qualified .u8 "other"))) []]]

theorem reachable_overlaid : overlaid.Reachable :=
  ⟨0, .head (.start _ _) (leads_declareEach _ _ fun _ =>
    ⟨trivial, trivial, fun _ => ⟨trivial, trivial, trivial⟩, trivial⟩)⟩

/-- The number of the scope below moves to the key of the third one, which makes way for it. -/
theorem imports_faithfully_sample :
    ∃ pool, overlaid.build.2.Offers pool ∧
      (∃ number application root entry, (overlaid.build.2.importing (.named "copy") pool
          [.exclude (.qualified .u8 "other"), .rebind (.of .u8) (.qualified .u8 "other")]).build.1 =
          some (.application number application) ∧
        application.poolAt? (.scope 0) = some root ∧ pool.find? (.of .u8) = some entry ∧
        root.find? (.qualified .u8 "other") = some (entry.renamed (.qualified .u8 "other")) ∧
        root.services.map ServiceDescriptor.key = [.qualified .u8 "other", .of .u16]) ∧
      (∃ diagnostics, (overlaid.build.2.importing (.named "copy") pool
          [.rebind (.of .u8) (.qualified .u8 "other")]).build.1 =
        some (.failed (.invalid diagnostics))) ∧
      ∃ last final, overlaid.build.2.Relays pool [(.named "first", []), (.named "second", [])]
        last final ∧ final.find? (.of .u8) = pool.find? (.of .u8) := by
  have seen : ((⟨0, .scope 1, false⟩ : PoolPath).resolve? overlaid.build.2.applications).map
      (fun pool => pool.visibleEntries.map RuntimeEntry.key) =
      some [.of .u8, .qualified .u8 "other", .of .u16] := by decide +kernel
  obtain ⟨pool, place, keys⟩ := Option.map_eq_some_iff.mp seen
  have offers := offers_of_resolve? place
  have reachable := reachable_overlaid.leads (.single (.build overlaid))
  have typed := reachable.sound.typed pool offers
  obtain ⟨faithful, relayed, composed⟩ := reachable.imports_faithfully offers
  obtain ⟨builds, -, carries⟩ := faithful (.named "copy")
    [.exclude (.qualified .u8 "other"), .rebind (.of .u8) (.qualified .u8 "other")] rfl
  obtain ⟨-, refused, -⟩ := faithful (.named "copy")
    [.rebind (.of .u8) (.qualified .u8 "other")] rfl
  obtain ⟨number, application, built⟩ := builds.mpr <| typed.nodup_kept.mp <| by
    rw [Pool.keys_kept, keys]
    decide +kernel
  obtain ⟨root, found, -, carried⟩ := carries number application built
  obtain ⟨entry, held⟩ : ∃ entry, pool.find? (.of .u8) = some entry := by
    refine Option.isSome_iff_exists.mp (typed.mem_keys.mp ?_)
    rw [keys]
    exact List.mem_cons_self
  obtain ⟨last, final, relays⟩ := relayed [.named "first", .named "second"]
  refine ⟨pool, offers, ⟨number, application, root, entry, built, found, held, ?_, ?_⟩,
    refused ?_, last, final, relays, (composed _ last final relays).2 (by simp) _⟩
  · exact (carried.found _ _).mpr ⟨_, entry, held, by decide +kernel, rfl⟩
  · rw [carried.services, Pool.keys_services, keys]
    decide +kernel
  · rw [← typed.nodup_kept, Pool.keys_kept, keys]
    decide +kernel

end Host

end Wiring
