import Mathlib.Data.List.Rotate
import Wiring.Proofs.Offers
import Wiring.Proofs.Rotations
import Wiring.Stock

/-!
Circles of dependencies. The paths that are recorded are circles of the graph that leads from each
factory to the producers of its dependencies, up to rotation, and every part of the graph that has
a circle has one recorded. But a search reports one path for each edge that closes a circle, so of
two circles that share factories one may go unrecorded.
-/

namespace Wiring

/-- The factories, one after the other, with their keys. -/
def Along (entries : List Entry) : List Nat → List Key → Prop :=
  List.Forall₂ fun index key => ∃ entry, entries[index]? = some entry ∧
    entry.isFactory = true ∧ entry.key = key

section Graph

variable {entries : List Entry} {links : List (List EntryId)} {cycle : List Nat} {index next : Nat}

/-- The graph leads to factories. -/
theorem isFactory_of_mem_factoriesBehind (edge : next ∈ Draft.factoriesBehind entries links index) :
    ∃ entry, entries[next]? = some entry ∧ entry.isFactory = true := by
  obtain ⟨id, -, kept⟩ := List.mem_filterMap.mp edge
  split at kept
  · rename_i factory
    obtain rfl := Option.some.inj kept
    cases found : entries[id.index]? with
    | none => simp [found] at factory
    | some entry => exact ⟨entry, rfl, by simpa [found] using factory⟩
  · cases kept

theorem contained_factoriesBehind (entries : List Entry) (links : List (List EntryId)) :
    Contained entries.length (Draft.factoriesBehind entries links) := by
  intro index _ next edge
  obtain ⟨entry, found, -⟩ := isFactory_of_mem_factoriesBehind edge
  exact (List.getElem?_eq_some_iff.mp found).1

theorem Circular.isFactory (circular : Circular (Draft.factoriesBehind entries links) cycle)
    (member : index ∈ cycle) : ∃ entry, entries[index]? = some entry ∧ entry.isFactory = true := by
  obtain ⟨before, -, edge⟩ := Relation.TransGen.tail'_iff.mp (circular.leadsTo member member)
  exact isFactory_of_mem_factoriesBehind edge

/-- The keys along a circle of factories. -/
theorem Circular.along (circular : Circular (Draft.factoriesBehind entries links) cycle) :
    Along entries cycle (cycle.filterMap fun index => entries[index]?.map Entry.key) := by
  have keyed (part : List Nat) (among : part ⊆ cycle) :
      Along entries part (part.filterMap fun index => entries[index]?.map Entry.key) := by
    induction part with
    | nil => exact .nil
    | cons index rest ih =>
      obtain ⟨entry, found, factory⟩ := circular.isFactory (among List.mem_cons_self)
      simp only [List.filterMap_cons, found, Option.map_some]
      exact .cons ⟨entry, found, factory, rfl⟩
        (ih fun other member => among (List.mem_cons_of_mem _ member))
  exact keyed cycle (List.Subset.refl _)

end Graph

/-- What is recorded of cycles that are reported one after the other. -/
theorem Diagnostics.dependencyCycles_recorded (diagnostics : Diagnostics)
    (cycles : List (List Key)) :
    (cycles.foldl Diagnostics.recordDependencyCycle diagnostics).dependencyCycles =
      (cycles.map (rotateToLeast Key.shown)).foldl (joinNew fun old new => old == new)
        diagnostics.dependencyCycles := by
  induction cycles generalizing diagnostics with
  | nil => rfl
  | cons cycle rest ih => exact ih (diagnostics.recordDependencyCycle cycle)

namespace Assembly

variable {offered : Pool → Prop} {assembly : Assembly}

theorem dependencyCycles_finalDraft (assembly : Assembly) :
    assembly.finalDraft.diagnostics.dependencyCycles =
      assembly.linkedDraft.diagnostics.dependencyCycles := by
  unfold finalDraft
  dsimp only
  split
  · rfl
  · exact List.foldlRecOn _ _ (motive := fun draft : Draft => draft.diagnostics.dependencyCycles =
      assembly.linkedDraft.diagnostics.dependencyCycles) rfl fun _ same _ _ => same

/-- The circles that are recorded are those that the search finds, each from its least key on and
once. -/
theorem Ordered.survey_dependencyCycles (ordered : assembly.Ordered)
    (wellFormed : assembly.WellFormed offered) :
    assembly.survey.diagnostics.dependencyCycles =
      ((Draft.dependencyCycles assembly.survey.entries assembly.survey.links).map
        (rotateToLeast Key.shown)).foldl (joinNew fun old new => old == new) [] := by
  obtain ⟨filling, log, filled, course⟩ := ordered.exists_course wellFormed
  obtain ⟨exporting, -, exported⟩ := course.offers
  have linked := Draft.leaves_link assembly.scopes assembly.exportedDraft
  have before : (assembly.exportedDraft.link assembly.scopes).diagnostics.dependencyCycles = [] :=
    linked.dependencyCycles.trans ((filled.trans exported).dependencyCycles.trans
      assembly.leaves_orderedDraft.dependencyCycles)
  change assembly.finalDraft.diagnostics.dependencyCycles = _
  rw [dependencyCycles_finalDraft, survey_entries, ← linked.entries, ← before]
  exact Diagnostics.dependencyCycles_recorded _ _

end Assembly

namespace Host

variable {host : Host} {assembly : Assembly}

/-- Circles of dependencies are recorded where there are any. Each path that is recorded is, up to
rotation, that of a circle of factories, and none is recorded twice; and for each circle one is
recorded whose factories all depend on those of the circle, and those of the circle on them. So
nothing is recorded exactly when no factories depend on each other in a circle. -/
theorem Reachable.records_circles (reachable : host.Reachable)
    (current : host.assembly = some assembly) :
    let graph := Draft.factoriesBehind assembly.survey.entries assembly.survey.links
    let recorded := assembly.survey.diagnostics.dependencyCycles
    recorded.Nodup ∧
      (∀ path ∈ recorded, ∃ cycle keys, Circular graph cycle ∧
        Along assembly.survey.entries cycle keys ∧ path.IsRotated keys) ∧
      (∀ cycle, Circular graph cycle → ∃ path ∈ recorded, ∃ other keys, Circular graph other ∧
        Along assembly.survey.entries other keys ∧ path.IsRotated keys ∧
        ∀ node ∈ cycle, ∀ next ∈ other, LeadsTo graph node next ∧ LeadsTo graph next node) ∧
      (recorded = [] ↔ ∀ cycle, ¬ Circular graph cycle) := by
  intro graph recorded
  have same : recorded = _ := (reachable.ordered current).survey_dependencyCycles
    (reachable.sound.wellFormed assembly current)
  have contained : Contained assembly.survey.entries.length graph := contained_factoriesBehind _ _
  have found {path : List Key} : path ∈ recorded ↔
      ∃ cycle ∈ findCycles assembly.survey.entries.length graph, path = rotateToLeast Key.shown
        (cycle.filterMap fun index => assembly.survey.entries[index]?.map Entry.key) := by
    rw [same, mem_foldl_joinNew, Draft.dependencyCycles, List.map_map, List.mem_map]
    simp only [List.not_mem_nil, false_or, Function.comp_apply, eq_comm]
    rfl
  have all (cycle : List Nat) (circular : Circular graph cycle) :
      ∃ path ∈ recorded, ∃ other keys, Circular graph other ∧
        Along assembly.survey.entries other keys ∧ path.IsRotated keys ∧
        ∀ node ∈ cycle, ∀ next ∈ other, LeadsTo graph node next ∧ LeadsTo graph next node := by
    have first := List.head_mem circular.nonempty
    obtain ⟨entry, here, -⟩ := circular.isFactory first
    obtain ⟨other, member, connected⟩ := exists_connected_cycle contained
      (List.getElem?_eq_some_iff.mp here).1 (circular.leadsTo first first)
    have circular' := (circular_of_mem contained member).1
    refine ⟨_, found.mpr ⟨other, member, rfl⟩, other, _, circular', circular'.along,
      isRotated_rotateToLeast _ _, fun node among next listed => ⟨?_, ?_⟩⟩
    · exact (circular.leadsTo among first).trans (connected next listed).1
    · exact (connected next listed).2.trans (circular.leadsTo first among)
  have sound (path : List Key) (member : path ∈ recorded) : ∃ cycle keys, Circular graph cycle ∧
      Along assembly.survey.entries cycle keys ∧ path.IsRotated keys := by
    obtain ⟨cycle, listed, rfl⟩ := found.mp member
    have circular := (circular_of_mem contained listed).1
    exact ⟨cycle, _, circular, circular.along, isRotated_rotateToLeast _ _⟩
  refine ⟨same ▸ nodup_foldl_joinNew .nil, sound, all, fun nothing cycle circular => ?_,
    fun acyclic => ?_⟩
  · obtain ⟨path, member, -⟩ := all cycle circular
    simp [nothing] at member
  · refine List.eq_nil_iff_forall_not_mem.mpr fun path member => ?_
    obtain ⟨cycle, keys, circular, -⟩ := sound path member
    exact acyclic cycle circular

/-- The declaration of a sum under a key, whatever its dependencies are. -/
def declareSum (key : Key) (dependencies : List Key) : Declaration :=
  .provide (.untyped key dependencies (.ofReader fun _ received =>
    let numbers := received.values.map fun pair => pair.2.value.number
    .give (.ofParts key.type (numbers.foldl (· + ·) 0) ""))) []

/-- A host that is about to build sums in two circles, which share a first and a last sum. -/
def crossing : Host :=
  (Host.new.start (.named "crossing")).declareEach
    [declareSum (.of .u8) [.of .u16, .of .u32], declareSum (.of .u16) [.of .u64],
      declareSum (.of .u32) [.of .u64], declareSum (.of .u64) [.of .u8]]

theorem reachable_crossing : crossing.Reachable :=
  ⟨0, .head (.start _ _) (leads_declareEach _ _ fun _ =>
    ⟨trivial, trivial, trivial, trivial, trivial⟩)⟩

end Host

namespace Assembly

/-- The assembly that this host is about to build. -/
def crossing : Assembly := Host.crossing.assembly.get (by decide +kernel)

/-- The graph of its sums. -/
def crossingGraph : Nat → List Nat :=
  Draft.factoriesBehind crossing.survey.entries crossing.survey.links

theorem circular_crossing : Circular crossingGraph [0, 2, 3] where
  nonempty := by decide
  distinct := by decide
  linked := by
    have first : 2 ∈ crossingGraph 0 := by decide +kernel
    have second : 3 ∈ crossingGraph 2 := by decide +kernel
    exact .cons_cons first (.cons_cons second (.singleton _))
  closed := by
    have last : 0 ∈ crossingGraph 3 := by decide +kernel
    exact last

theorem along_crossing : Along crossing.survey.entries [0, 2, 3] [.of .u8, .of .u32, .of .u64] := by
  have along := circular_crossing.along
  have keys : [0, 2, 3].filterMap (fun index => crossing.survey.entries[index]?.map Entry.key) =
      [.of .u8, .of .u32, .of .u64] := by decide +kernel
  rwa [keys] at along

end Assembly

/-- Of two circles that share their first and their last sum one is recorded, and with it all sums
of the other are known to depend on each other. -/
theorem Host.records_circles_sample :
    ∃ path ∈ Assembly.crossing.survey.diagnostics.dependencyCycles, ∃ other keys,
      Circular Assembly.crossingGraph other ∧
        Along Assembly.crossing.survey.entries other keys ∧ path.IsRotated keys ∧
        ∀ next ∈ other, LeadsTo Assembly.crossingGraph 2 next := by
  have current : crossing.assembly = some Assembly.crossing := (Option.some_get _).symm
  obtain ⟨-, -, all, -⟩ := reachable_crossing.records_circles current
  obtain ⟨path, member, other, keys, circular, along, rotated, connected⟩ :=
    all _ Assembly.circular_crossing
  exact ⟨path, member, other, keys, circular, along, rotated, fun next listed =>
    (connected 2 (by decide) next listed).1⟩

/-- The other circle is not recorded. -/
theorem Host.crossing_circle_unrecorded :
    crossing.Reachable ∧ crossing.assembly = some Assembly.crossing ∧
      ∃ cycle keys, Circular Assembly.crossingGraph cycle ∧
        Along Assembly.crossing.survey.entries cycle keys ∧
        ∀ path ∈ Assembly.crossing.survey.diagnostics.dependencyCycles, ¬ path.IsRotated keys := by
  refine ⟨reachable_crossing, (Option.some_get _).symm, _, _, Assembly.circular_crossing,
    Assembly.along_crossing, fun path member rotated => ?_⟩
  have recorded : Assembly.crossing.survey.diagnostics.dependencyCycles =
      [[.of .u16, .of .u64, .of .u8]] := by decide +kernel
  rw [recorded, List.mem_singleton] at member
  have among : Key.of .u32 ∈ path := rotated.mem_iff.mpr (by simp)
  rw [member] at among
  exact absurd among (by decide)

end Wiring
