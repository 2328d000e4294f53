import Wiring.Proofs.Consistency
import Wiring.Proofs.Diagnoses
import Wiring.Proofs.Rotations

/-!
The order of imports where scopes import from each other in a circle. The scopes on a circle and
those downstream of one wait in vain, all others come after their sources. The search for circles
looks only at the scopes that wait in vain; it finds one exactly where there is one, and records
each circle once, from its least name on.
-/

namespace Wiring

/-- By some imports, or none, one comes from the scope to a scope on a circle of imports. -/
def Entangled (scopes : List Scope) (index : Nat) : Prop :=
  ∃ source, Relation.ReflTransGen (fun importer source => source ∈ sourcesAt scopes importer)
    index source ∧ LeadsTo (sourcesAt scopes) source source

/-- The names of the scopes at some positions. -/
def Names (scopes : List Scope) : List Nat → List String → Prop :=
  List.Forall₂ fun index name => scopes[index]?.map Scope.name = some name

namespace ImportOrdering

variable {scopes : List Scope} {ordering : ImportOrdering} {index importer : Nat}

/-- On the way to the order of some scopes one is ordered, and it is the importer's turn to be
released from it. -/
def Releases (scopes : List Scope) (ordering : ImportOrdering) (importer : Nat) : Prop :=
  ∃ rounds index ready released rest,
    let before := run scopes rounds (start scopes)
    before.ready = index :: ready ∧ importers scopes index = released ++ importer :: rest ∧
      ordering = released.foldl release
        { before with ready := ready, ordered := before.ordered ++ [index] }

/-- A scope that is released waits for at least this import. -/
theorem Releases.exact (releases : Releases scopes ordering importer) :
    (ordering.release importer).waiting.getD importer 0 + 1 =
      ordering.waiting.getD importer 0 := by
  obtain ⟨rounds, index, ready, released, rest, pending, turns, rfl⟩ := releases
  have counted := (counted_start scopes).run rounds
  generalize run scopes rounds (start scopes) = before at pending counted
  have inside : importer < scopes.length := by
    have listed : importer ∈ importers scopes index := by simp [turns]
    obtain ⟨other, member, copies⟩ := List.mem_flatMap.mp listed
    rw [(List.mem_replicate.mp copies).2]
    exact List.mem_range.mp member
  have waits : released.count importer + (rest.count importer + 1) ≤
      before.waiting.getD importer 0 := by
    calc released.count importer + (rest.count importer + 1)
        = (importers scopes index).count importer := by
          rw [turns, List.count_append, List.count_cons_self]
      _ = (sourcesAt scopes importer).count index := count_importers scopes index inside
      _ ≤ (sourcesAt scopes importer).countP fun source => source ∉ before.ordered :=
          count_le_countP (counted.notMem_ordered pending) _
      _ = before.waiting.getD importer 0 := (counted.waiting importer inside).symm
  have once := waiting_release [importer]
    (released.foldl release { before with ready := ready, ordered := before.ordered ++ [index] })
    importer
  rw [List.foldl_cons, List.foldl_nil, List.count_singleton_self] at once
  rw [once, waiting_release]
  dsimp only
  omega

/-- The scopes that wait in vain are those on a circle of imports and those downstream of one. -/
theorem isStuck_iff_entangled (contained : Contained scopes.length (sourcesAt scopes))
    (inside : index < scopes.length) :
    (complete scopes).isStuck index = true ↔ Entangled scopes index := by
  constructor
  · intro stuck
    let waits (source : Nat) : Prop := source < scopes.length ∧
      (complete scopes).isStuck source = true ∧
      Relation.ReflTransGen (fun importer source => source ∈ sourcesAt scopes importer) index source
    have onward : ∀ source, waits source → ∃ next ∈ sourcesAt scopes source, waits next := by
      rintro source ⟨within, blocked, chain⟩
      obtain ⟨next, edge, within, blocked⟩ := exists_stuck_source contained within blocked
      exact ⟨next, edge, within, blocked, chain.tail edge⟩
    obtain ⟨cycle, member, first, known, -, -, chain⟩ :=
      Search.exists_cycle contained onward inside ⟨inside, stuck, .refl⟩
    exact ⟨first, chain, (circular_of_mem contained member).1.leadsTo known known⟩
  · rintro ⟨source, chain, loop⟩
    refine (isStuck_complete inside).mpr fun ordered => ?_
    have counted := counted_complete scopes
    have ends := counted.forward.acc (fun _ member => nomatch member) index ordered
    have onward : Acc (fun source index => source ∈ sourcesAt scopes index) source := by
      clear loop
      induction chain with
      | refl => exact ends
      | tail _ edge ih => exact ih.inv edge
    exact not_transGen_of_acc onward loop

end ImportOrdering

/-- The scopes that come after all their sources, and then those that cannot. -/
theorem importOrder_split {scopes : List Scope}
    (contained : Contained scopes.length (sourcesAt scopes)) :
    ∃ free last, importOrder scopes = (free ++ last).map ScopeId.mk ∧ SourcesFirst scopes [] free ∧
      last.Pairwise (· < ·) ∧
      ∀ index, index ∈ last ↔ index < scopes.length ∧ Entangled scopes index := by
  have counted := ImportOrdering.counted_complete scopes
  refine ⟨_, _, rfl, counted.forward, List.pairwise_lt_range.filter _, fun index => ?_⟩
  rw [ImportOrdering.stuck, List.mem_filter, List.mem_range, counted.length]
  exact and_congr_right fun inside => ImportOrdering.isStuck_iff_entangled contained inside

theorem importCycles_eq_nil_iff {scopes : List Scope}
    (contained : Contained scopes.length (sourcesAt scopes)) :
    importCycles scopes = [] ↔ ∀ index, ¬ LeadsTo (sourcesAt scopes) index index :=
  ⟨fun none_found index =>
      not_transGen_of_acc ((importCycles_eq_nil contained).mp none_found index),
    importCycles_of_acyclic contained⟩

/-- The circles that are found are circles of imports. -/
theorem exists_circular {scopes : List Scope}
    (contained : Contained scopes.length (sourcesAt scopes)) {names : List String}
    (found : names ∈ importCycles scopes) :
    ∃ cycle, Circular (sourcesAt scopes) cycle ∧ (∀ index ∈ cycle, index < scopes.length) ∧
      names = cycle.map fun index => (scopes[index]?.map Scope.name).getD "" := by
  obtain ⟨cycle, member, rfl⟩ := List.mem_map.mp found
  have blocked : Contained scopes.length ((ImportOrdering.complete scopes).blocking scopes) :=
    fun index inside source blocks =>
      contained index inside source (ImportOrdering.mem_of_blocking blocks)
  obtain ⟨⟨nonempty, distinct, linked, closed⟩, inside⟩ := circular_of_mem blocked member
  have imports : Circular (sourcesAt scopes) cycle :=
    ⟨nonempty, distinct, linked.imp fun _ _ => ImportOrdering.mem_of_blocking,
      ImportOrdering.mem_of_blocking closed⟩
  exact ⟨cycle, imports, inside, rfl⟩

namespace Assembly

variable {assembly : Assembly} {cycle : List Nat}

theorem names_map (inside : ∀ index ∈ cycle, index < assembly.scopes.length) :
    Names assembly.scopes cycle
      (cycle.map fun index => (assembly.scopes[index]?.map Scope.name).getD "") := by
  refine List.forall₂_map_right_iff.mpr (List.forall₂_same.mpr fun index member => ?_)
  rw [List.getElem?_eq_getElem (inside index member)]
  rfl

/-- Distinct scopes have distinct names. -/
theorem Named.nodup_map (named : assembly.Named) (distinct : cycle.Nodup)
    (inside : ∀ index ∈ cycle, index < assembly.scopes.length) :
    (cycle.map fun index => (assembly.scopes[index]?.map Scope.name).getD "").Nodup := by
  refine distinct.map_on fun index member other member' same => ?_
  have within := inside index member
  have within' := inside other member'
  refine (List.getElem?_inj (by simpa using within) named.names).mp ?_
  rw [List.getElem?_map, List.getElem?_map, List.getElem?_eq_getElem within,
    List.getElem?_eq_getElem within']
  rw [List.getElem?_eq_getElem within, List.getElem?_eq_getElem within'] at same
  exact congrArg some same

/-- Each recorded path is written along a circle of imports, from its least name on. -/
theorem Regular.exists_recorded {offered : Pool → Prop} (regular : assembly.Regular offered)
    {path : List String} (recorded : path ∈ assembly.survey.diagnostics.importCycles) :
    ∃ cycle, Circular (sourcesAt assembly.scopes) cycle ∧ Names assembly.scopes cycle path ∧
      path.Nodup ∧ rotateToLeast id path = path := by
  rw [survey_importCycles, mem_foldl_joinNew, List.mem_map] at recorded
  obtain ⟨names, found, rfl⟩ := recorded.resolve_left List.not_mem_nil
  obtain ⟨cycle, circular, inside, rfl⟩ := exists_circular regular.wellFormed.contained found
  let nameAt (index : Nat) : String := (assembly.scopes[index]?.map Scope.name).getD ""
  have rotated := isRotated_rotateToLeast id (cycle.map nameAt)
  have once : (rotateToLeast id (cycle.map nameAt)).Nodup :=
    rotated.nodup_iff.mpr (regular.named.nodup_map circular.distinct inside)
  have canonical := rotateToLeast_eq_of_isRotated id (by rwa [List.map_id]) rotated
  let turns := leastPosition ((cycle.map nameAt).map id)
  have along : rotateToLeast id (cycle.map nameAt) = (cycle.rotate turns).map nameAt := by
    rw [rotateToLeast_eq_rotate, List.map_rotate]
  refine ⟨cycle.rotate turns, circular.of_isRotated ⟨turns, rfl⟩, ?_, once, canonical⟩
  rw [along]
  exact names_map fun index member => inside index (List.mem_rotate.mp member)

end Assembly

namespace Host

variable {host : Host} {assembly : Assembly}

/-- Imports are ordered sources first, as far as they can be. Each scope has one turn. A scope is
released at most as often as it waits, also when it imports from one source several times. The
scopes that are not on a circle of imports or downstream of one come after all their sources, and
the others last, in the order of their creation. A circle is recorded exactly when there is one,
and each that is recorded goes from a scope to one of its sources, through distinct scopes and back
to the first; no two are rotations of each other. -/
theorem Reachable.orders_imports (reachable : host.Reachable)
    (current : host.assembly = some assembly) :
    let scopes := assembly.scopes
    let recorded := assembly.survey.diagnostics.importCycles
    ((importOrder scopes).Nodup ∧
        ∀ scope, scope ∈ importOrder scopes ↔ scope.index < scopes.length) ∧
      (∀ ordering importer, ImportOrdering.Releases scopes ordering importer →
        (ordering.release importer).waiting.getD importer 0 + 1 =
          ordering.waiting.getD importer 0) ∧
      (∃ free last, importOrder scopes = (free ++ last).map ScopeId.mk ∧
        SourcesFirst scopes [] free ∧ last.Pairwise (· < ·) ∧
        ∀ index, index ∈ last ↔ index < scopes.length ∧ Entangled scopes index) ∧
      (recorded = [] ↔ ∀ index, ¬ LeadsTo (sourcesAt scopes) index index) ∧
      (∀ path ∈ recorded, ∃ cycle, Circular (sourcesAt scopes) cycle ∧ Names scopes cycle path) ∧
      recorded.Pairwise fun first second => ¬ first.IsRotated second := by
  intro scopes recorded
  have regular := reachable.regular current
  have contained := regular.wellFormed.contained
  have joined : recorded = _ := assembly.survey_importCycles
  have once : recorded.Nodup := joined ▸ nodup_foldl_joinNew .nil
  have none_recorded : recorded = [] ↔ importCycles scopes = [] := by
    have mapped : (importCycles scopes).map (rotateToLeast id) = [] ↔ importCycles scopes = [] :=
      List.map_eq_nil_iff
    rw [← mapped, List.eq_nil_iff_forall_not_mem, List.eq_nil_iff_forall_not_mem]
    exact forall_congr' fun path => not_congr (by simp [joined, mem_foldl_joinNew, scopes])
  refine ⟨⟨nodup_importOrder scopes, fun scope => ⟨lt_of_mem_importOrder, mem_importOrder⟩⟩,
    fun ordering importer releases => releases.exact, importOrder_split contained,
    none_recorded.trans (importCycles_eq_nil_iff contained), fun path member => ?_,
    once.imp_of_mem fun {first second} member member' different rotated => ?_⟩
  · obtain ⟨cycle, circular, names, -⟩ := regular.exists_recorded member
    exact ⟨cycle, circular, names⟩
  · obtain ⟨-, -, -, distinct, canonical⟩ := regular.exists_recorded member
    obtain ⟨-, -, -, -, canonical'⟩ := regular.exists_recorded member'
    refine different ?_
    rw [← canonical, ← canonical']
    exact rotateToLeast_eq_of_isRotated id (by rwa [List.map_id]) rotated

/-- A host that is about to build a scope that imports twice from another one, which imports from
it. A third scope imports from the first one, and a fourth from none. -/
def ringed : Host :=
  (Host.new.start (.named "outer")).declareEach
    [.link "inner" ⟨"inner", .nothing⟩ fun _ => [.importFrom (.scope ⟨0⟩) []],
      .link "after" ⟨"after", .nothing⟩ fun _ => [.importFrom (.scope ⟨0⟩) []],
      .link "apart" ⟨"apart", .nothing⟩ fun _ => [],
      .importFrom (.scope ⟨1⟩) [], .importFrom (.scope ⟨1⟩) []]

theorem reachable_ringed : ringed.Reachable :=
  ⟨0, .head (.start _ _) (leads_declareEach _ _ fun _ =>
    ⟨fun _ => ⟨nofun, trivial⟩, fun _ => ⟨nofun, trivial⟩, fun _ => trivial, nofun, nofun,
      trivial⟩)⟩

end Host

/-- The assembly that this host is about to build. -/
def Assembly.ringed : Assembly := Host.ringed.assembly.getD (.new 0 (.named ""))

/-- The circle is recorded, and the scope downstream of it waits in vain. -/
theorem Host.orders_imports_sample :
    importOrder Assembly.ringed.scopes = [⟨3⟩, ⟨0⟩, ⟨1⟩, ⟨2⟩] ∧
      (∃ free last : List Nat,
        importOrder Assembly.ringed.scopes = (free ++ last).map ScopeId.mk ∧ 2 ∈ last) ∧
      ∃ cycle, Circular (sourcesAt Assembly.ringed.scopes) cycle ∧
        Names Assembly.ringed.scopes cycle ["outer", "outer/inner"] := by
  have current : ringed.assembly = some Assembly.ringed := rfl
  obtain ⟨-, -, ⟨free, last, order, -, -, entangled⟩, -, circles, -⟩ :=
    reachable_ringed.orders_imports current
  have there : 1 ∈ sourcesAt Assembly.ringed.scopes 0 := by decide +kernel
  have back : 0 ∈ sourcesAt Assembly.ringed.scopes 1 := by decide +kernel
  have downstream : 0 ∈ sourcesAt Assembly.ringed.scopes 2 := by decide +kernel
  have recorded : Assembly.ringed.survey.diagnostics.importCycles = [["outer", "outer/inner"]] := by
    decide +kernel
  refine ⟨by decide +kernel, ⟨free, last, order, (entangled 2).mpr ⟨by decide +kernel, ?_⟩⟩,
    circles _ (recorded ▸ List.mem_cons_self)⟩
  exact ⟨0, .single downstream, .tail (.single there) back⟩

end Wiring
