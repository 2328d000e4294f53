import Mathlib.Data.Finset.Card
import Mathlib.Data.List.Nodup
import Wiring.Proofs.Circuits
import Wiring.Resolution.ImportOrder

/-!
Every scope takes its place in the order of imports: it is ordered when all its sources are, or it
waits in vain and comes last. No scope waits in vain exactly when no circle of imports is found.
-/

namespace Wiring

/-- Each scope comes once and after all its sources; those of the first list came before. -/
def SourcesFirst (scopes : List Scope) : List Nat → List Nat → Prop
  | _, [] => True
  | done, index :: rest =>
    index ∉ done ∧ (∀ source ∈ sourcesAt scopes index, source ∈ done) ∧
      SourcesFirst scopes (done ++ [index]) rest

theorem sourcesFirst_append_singleton {scopes : List Scope} {done order : List Nat} {index : Nat} :
    SourcesFirst scopes done (order ++ [index]) ↔ SourcesFirst scopes done order ∧
      index ∉ done ++ order ∧ ∀ source ∈ sourcesAt scopes index, source ∈ done ++ order := by
  induction order generalizing done with
  | nil => simp [SourcesFirst]
  | cons first rest ih =>
    rw [List.cons_append, SourcesFirst, ih, SourcesFirst, List.append_assoc, List.singleton_append]
    tauto

namespace ImportOrdering

variable {size : Nat} {scopes : List Scope}

/-- What holds of an ordering at every step: exactly the scopes that wait for nothing are ready or
ordered, each once. -/
structure Tracked (size : Nat) (ordering : ImportOrdering) : Prop where
  length : ordering.waiting.length = size
  inside : ∀ index ∈ ordering.ordered ++ ordering.ready, index < size
  distinct : (ordering.ordered ++ ordering.ready).Nodup
  settled : ∀ index < size,
    ordering.waiting.getD index 0 = 0 ↔ index ∈ ordering.ordered ++ ordering.ready

theorem tracked_start (scopes : List Scope) : Tracked scopes.length (start scopes) where
  length := by simp [start]
  inside index member := by
    simp only [start, List.nil_append, List.mem_filter, List.mem_range] at member
    exact member.1
  distinct := by
    simp only [start, List.nil_append]
    exact List.nodup_range.filter _
  settled index inside := by
    simp [start, sourcesAt, inside, List.getD_eq_getElem?_getD]

/-- The release of an import keeps what holds of an ordering. -/
theorem Tracked.release {ordering : ImportOrdering} (tracked : Tracked size ordering)
    (importer : Nat) : Tracked size (ordering.release importer) := by
  by_cases inside : importer < size
  · have within : importer < ordering.waiting.length := by rw [tracked.length]; exact inside
    have waiting (index : Nat) :
        (ordering.waiting.set importer (ordering.waiting.getD importer 0 - 1)).getD index 0 =
          if index = importer then ordering.waiting.getD importer 0 - 1
          else ordering.waiting.getD index 0 := by
      by_cases same : index = importer
      · subst same
        simp [List.getD_eq_getElem?_getD, within]
      · simp [List.getD_eq_getElem?_getD, List.getElem?_set_ne (Ne.symm same), same]
    by_cases last : ordering.waiting.getD importer 0 = 1
    · have absent : importer ∉ ordering.ordered ++ ordering.ready := by
        rw [← tracked.settled importer inside]
        omega
      have grown : (ordering.release importer).ordered ++ (ordering.release importer).ready =
          ordering.ordered ++ ordering.ready ++ [importer] := by
        simp only [ImportOrdering.release, if_pos last, List.append_assoc]
      refine ⟨by simp [ImportOrdering.release, tracked.length], ?_, ?_, ?_⟩
      · intro index member
        rw [grown, List.mem_append, List.mem_singleton] at member
        rcases member with member | rfl
        · exact tracked.inside index member
        · exact inside
      · rw [grown]
        exact List.nodup_append.mpr ⟨tracked.distinct, List.nodup_singleton _, by
          rintro index member other here rfl
          exact absent (List.mem_singleton.mp here ▸ member)⟩
      · intro index below
        rw [grown, List.mem_append, List.mem_singleton, ← tracked.settled index below]
        simp only [ImportOrdering.release, waiting]
        by_cases same : index = importer
        · subst same
          rw [if_pos rfl, last]
          simp
        · simp [same]
    · have kept : (ordering.release importer).ordered ++ (ordering.release importer).ready =
          ordering.ordered ++ ordering.ready := by
        simp only [ImportOrdering.release, if_neg last]
      refine ⟨by simp [ImportOrdering.release, tracked.length], ?_, ?_, ?_⟩
      · rw [kept]; exact tracked.inside
      · rw [kept]; exact tracked.distinct
      · intro index below
        rw [kept, ← tracked.settled index below]
        simp only [ImportOrdering.release, waiting]
        by_cases same : index = importer
        · subst same
          rw [if_pos rfl]
          omega
        · simp [same]
  · have absent : ordering.waiting.getD importer 0 = 0 := by
      rw [List.getD_eq_getElem?_getD, List.getElem?_eq_none (by rw [tracked.length]; omega)]
      rfl
    have same : ordering.release importer = ordering := by
      simp only [ImportOrdering.release, absent]
      rw [List.set_eq_of_length_le (by rw [tracked.length]; omega)]
      rfl
    rw [same]
    exact tracked

/-- Ordering the next scope keeps what holds of an ordering. -/
theorem Tracked.next {ordering : ImportOrdering} (tracked : Tracked size ordering) :
    Tracked size (ordering.next scopes) := by
  unfold ImportOrdering.next
  split
  · exact tracked
  · rename_i index ready pending
    have moved : Tracked size
        { ordering with ready := ready, ordered := ordering.ordered ++ [index] } := by
      have same : ordering.ordered ++ [index] ++ ready = ordering.ordered ++ ordering.ready := by
        rw [pending, List.append_assoc, List.singleton_append]
      exact {
        length := tracked.length
        inside := by dsimp only; rw [same]; exact tracked.inside
        distinct := by dsimp only; rw [same]; exact tracked.distinct
        settled := by dsimp only; rw [same]; exact tracked.settled }
    generalize importers scopes index = released
    induction released using List.reverseRecOn with
    | nil => exact moved
    | append_singleton before importer ih =>
      rw [List.foldl_append]
      exact ih.release importer

theorem Tracked.run {ordering : ImportOrdering} (tracked : Tracked size ordering) (rounds : Nat) :
    Tracked size (run scopes rounds ordering) := by
  induction rounds generalizing ordering with
  | zero => exact tracked
  | succ rounds ih => exact ih tracked.next

theorem release_ordered (ordering : ImportOrdering) (importer : Nat) :
    (ordering.release importer).ordered = ordering.ordered := rfl

/-- A round orders one more scope, unless none is ready. -/
theorem next_ordered_length {ordering : ImportOrdering} (some_ready : ordering.ready ≠ []) :
    (ordering.next scopes).ordered.length = ordering.ordered.length + 1 := by
  unfold ImportOrdering.next
  split
  · contradiction
  · rename_i index ready pending
    have kept (released : List Nat) (ordering : ImportOrdering) :
        (released.foldl release ordering).ordered = ordering.ordered := by
      induction released generalizing ordering with
      | nil => rfl
      | cons importer rest ih => exact (ih _).trans (release_ordered ordering importer)
    rw [kept]
    simp

theorem run_of_none_ready {ordering : ImportOrdering} (none_ready : ordering.ready = [])
    (rounds : Nat) : run scopes rounds ordering = ordering := by
  induction rounds with
  | zero => rfl
  | succ rounds ih =>
    have still : ordering.next scopes = ordering := by simp [ImportOrdering.next, none_ready]
    rw [run, still, ih]

/-- After as many rounds as there are scopes none is ready any more. -/
theorem complete_ready (scopes : List Scope) : (complete scopes).ready = [] := by
  have bound {ordering : ImportOrdering} (tracked : Tracked scopes.length ordering) :
      ordering.ordered.length + ordering.ready.length ≤ scopes.length := by
    have inside : ordering.ordered ++ ordering.ready ⊆ List.range scopes.length :=
      fun index member => List.mem_range.mpr (tracked.inside index member)
    have within := tracked.distinct.subperm inside
    simpa using within.length_le
  have rounds_left (rounds : Nat) {ordering : ImportOrdering}
      (tracked : Tracked scopes.length ordering)
      (enough : scopes.length ≤ ordering.ordered.length + rounds) :
      (run scopes rounds ordering).ready = [] := by
    induction rounds generalizing ordering with
    | zero =>
      have fits := bound tracked
      exact List.length_eq_zero_iff.mp (show ordering.ready.length = 0 by omega)
    | succ rounds ih =>
      by_cases none_ready : ordering.ready = []
      · rw [run_of_none_ready none_ready, none_ready]
      · apply ih tracked.next
        rw [next_ordered_length none_ready]
        omega
  exact rounds_left scopes.length (tracked_start scopes) (Nat.le_add_left _ _)

/-- What holds of an ordering of the scopes between its rounds: a scope waits for those imports
whose source is not ordered, and what is ordered comes after its sources. -/
structure Counted (scopes : List Scope) (ordering : ImportOrdering) : Prop
    extends Tracked scopes.length ordering where
  waiting : ∀ index < scopes.length, ordering.waiting.getD index 0 =
    (sourcesAt scopes index).countP fun source => source ∉ ordering.ordered
  forward : SourcesFirst scopes [] ordering.ordered

theorem counted_start (scopes : List Scope) : Counted scopes (start scopes) where
  toTracked := tracked_start scopes
  waiting index inside := by
    simp [start, sourcesAt, inside, List.getD_eq_getElem?_getD]
  forward := trivial

theorem ordered_release (released : List Nat) (ordering : ImportOrdering) :
    (released.foldl release ordering).ordered = ordering.ordered := by
  induction released generalizing ordering with
  | nil => rfl
  | cons importer rest ih => exact (ih _).trans (release_ordered ordering importer)

/-- Each release of a scope takes one off what it waits for. -/
theorem waiting_release (released : List Nat) (ordering : ImportOrdering) (index : Nat) :
    (released.foldl release ordering).waiting.getD index 0 =
      ordering.waiting.getD index 0 - released.count index := by
  induction released generalizing ordering with
  | nil => simp
  | cons importer rest ih =>
    have once : (ordering.release importer).waiting.getD index 0 =
        ordering.waiting.getD index 0 - if importer = index then 1 else 0 := by
      simp only [release, List.getD_eq_getElem?_getD, List.getElem?_set]
      by_cases same : importer = index
      · subst same
        by_cases inside : importer < ordering.waiting.length <;> simp [inside]
      · simp [same]
    rw [List.foldl_cons, ih, once, List.count_cons]
    by_cases same : importer = index
    · simp [same]
      omega
    · simp [same]

theorem count_importers (scopes : List Scope) (source : Nat) {index : Nat}
    (inside : index < scopes.length) :
    (importers scopes source).count index = (sourcesAt scopes index).count source := by
  unfold importers
  rw [List.count_flatMap, List.sum_map_eq_nsmul_single index]
  · simp [List.count_range, inside]
  · intro other different _
    simp [List.count_replicate, different]

theorem count_le_countP {ordered : List Nat} {next : Nat} (absent : next ∉ ordered)
    (sources : List Nat) :
    sources.count next ≤ sources.countP fun source => source ∉ ordered := by
  rw [List.count_eq_countP]
  refine List.countP_mono_left fun other _ same => ?_
  obtain rfl : other = next := by simpa using same
  simpa using absent

/-- What waits for one of the ordered scopes waits no longer. -/
theorem countP_ordered {ordered : List Nat} {next : Nat} (absent : next ∉ ordered)
    (sources : List Nat) : (sources.countP fun source => source ∉ ordered ++ [next]) =
      (sources.countP fun source => source ∉ ordered) - sources.count next := by
  induction sources with
  | nil => rfl
  | cons source rest ih =>
    have fewer := count_le_countP absent rest
    by_cases same : source = next
    · subst same
      simp_all
    · by_cases known : source ∈ ordered
      · simp_all
      · simp_all
        omega

theorem Tracked.notMem_ordered {ordering : ImportOrdering} (tracked : Tracked size ordering)
    {index : Nat} {ready : List Nat} (pending : ordering.ready = index :: ready) :
    index ∉ ordering.ordered := by
  have distinct := tracked.distinct
  rw [pending] at distinct
  exact fun member => (List.nodup_append.mp distinct).2.2 _ member _ List.mem_cons_self rfl

/-- Ordering the next scope keeps the counts. -/
theorem Counted.next {ordering : ImportOrdering} (counted : Counted scopes ordering) :
    Counted scopes (ordering.next scopes) := by
  refine ⟨counted.toTracked.next, ?_, ?_⟩
  all_goals
    unfold ImportOrdering.next
    split
  · exact counted.waiting
  · rename_i source ready pending
    intro index inside
    rw [waiting_release, ordered_release, count_importers scopes source inside,
      counted.waiting index inside, countP_ordered (counted.notMem_ordered pending)]
  · exact counted.forward
  · rename_i source ready pending
    rw [ordered_release, sourcesFirst_append_singleton]
    have inside : source < scopes.length := counted.inside source (by simp [pending])
    have nothing := (counted.settled source inside).mpr (by simp [pending])
    rw [counted.waiting source inside, List.countP_eq_zero] at nothing
    refine ⟨counted.forward, counted.notMem_ordered pending, fun other member => ?_⟩
    simpa using nothing other member

theorem Counted.run {ordering : ImportOrdering} (counted : Counted scopes ordering)
    (rounds : Nat) : Counted scopes (run scopes rounds ordering) := by
  induction rounds generalizing ordering with
  | zero => exact counted
  | succ rounds ih => exact ih counted.next

theorem counted_complete (scopes : List Scope) : Counted scopes (complete scopes) :=
  (counted_start scopes).run _

/-- A scope waits in vain exactly when it is not ordered. -/
theorem isStuck_complete {index : Nat} (inside : index < scopes.length) :
    (complete scopes).isStuck index = true ↔ index ∉ (complete scopes).ordered := by
  have settled := (counted_complete scopes).settled index inside
  rw [complete_ready, List.append_nil] at settled
  rw [isStuck, bne_iff_ne, ne_eq, settled]

theorem mem_of_blocking {ordering : ImportOrdering} {index source : Nat}
    (blocks : source ∈ ordering.blocking scopes index) : source ∈ sourcesAt scopes index := by
  unfold blocking at blocks
  split at blocks
  · exact (List.mem_filter.mp blocks).1
  · cases blocks

/-- A scope that waits in vain imports from one that does. -/
theorem exists_stuck_source (contained : Contained scopes.length (sourcesAt scopes)) {index : Nat}
    (inside : index < scopes.length) (stuck : (complete scopes).isStuck index = true) :
    ∃ source ∈ sourcesAt scopes index,
      source < scopes.length ∧ (complete scopes).isStuck source = true := by
  have waits : (complete scopes).waiting.getD index 0 ≠ 0 := by simpa [isStuck] using stuck
  rw [(counted_complete scopes).waiting index inside, ne_eq, List.countP_eq_zero] at waits
  push Not at waits
  obtain ⟨source, member, unordered⟩ := waits
  have within := contained index inside source member
  exact ⟨source, member, within, (isStuck_complete within).mpr (by simpa using unordered)⟩

/-- Where no scopes wait for each other for ever, none waits in vain. -/
theorem stuck_eq_nil (contained : Contained scopes.length (sourcesAt scopes))
    (ends : ∀ index,
      Acc (fun source index => source ∈ (complete scopes).blocking scopes index) index) :
    (complete scopes).stuck = [] := by
  have free (index : Nat) (inside : index < scopes.length) :
      ¬ (complete scopes).isStuck index = true := by
    induction ends index with
    | intro index _ ih =>
      intro stuck
      obtain ⟨source, member, within, blocked⟩ := exists_stuck_source contained inside stuck
      refine ih source ?_ within blocked
      rw [blocking, if_pos stuck]
      exact List.mem_filter.mpr ⟨member, blocked⟩
  refine List.filter_eq_nil_iff.mpr fun index member => free index ?_
  rw [← (counted_complete scopes).length]
  exact List.mem_range.mp member

end ImportOrdering

/-- Every scope has a place in the order of imports. -/
theorem mem_importOrder {scopes : List Scope} {index : Nat} (inside : index < scopes.length) :
    ScopeId.mk index ∈ importOrder scopes := by
  have tracked : ImportOrdering.Tracked scopes.length (ImportOrdering.complete scopes) :=
    (ImportOrdering.tracked_start scopes).run _
  have settled := tracked.settled index inside
  rw [ImportOrdering.complete_ready, List.append_nil] at settled
  refine List.mem_map.mpr ⟨index, List.mem_append.mpr ?_, rfl⟩
  by_cases waits : (ImportOrdering.complete scopes).waiting.getD index 0 = 0
  · exact .inl (settled.mp waits)
  · right
    refine List.mem_filter.mpr ⟨List.mem_range.mpr (by rw [tracked.length]; exact inside), ?_⟩
    simpa [ImportOrdering.isStuck] using waits

/-- The order of imports names scopes that exist. -/
theorem lt_of_mem_importOrder {scopes : List Scope} {scope : ScopeId}
    (member : scope ∈ importOrder scopes) : scope.index < scopes.length := by
  have counted := ImportOrdering.counted_complete scopes
  obtain ⟨index, listed, rfl⟩ := List.mem_map.mp member
  rcases List.mem_append.mp listed with ordered | stuck
  · exact counted.inside index (List.mem_append_left _ ordered)
  · rw [← counted.length]
    exact List.mem_range.mp (List.mem_filter.mp stuck).1

/-- Every scope has one turn to be filled, whether or not scopes import from each other in a
circle. -/
theorem nodup_importOrder (scopes : List Scope) : (importOrder scopes).Nodup := by
  have counted := ImportOrdering.counted_complete scopes
  have distinct := counted.distinct
  rw [ImportOrdering.complete_ready, List.append_nil] at distinct
  refine List.Nodup.map (fun _ _ => ScopeId.mk.inj) (List.nodup_append'.mpr
    ⟨distinct, List.nodup_range.filter _, fun index ordered stuck => ?_⟩)
  obtain ⟨inside, waits⟩ := List.mem_filter.mp stuck
  rw [List.mem_range, counted.length] at inside
  exact (ImportOrdering.isStuck_complete inside).mp waits ordered

theorem sourcesAt_of_length_le {scopes : List Scope} {index : Nat}
    (outside : scopes.length ≤ index) : sourcesAt scopes index = [] := by
  simp [sourcesAt, outside]

theorem sourcesAt_of_getElem? {scopes : List Scope} {index : Nat} {scope : Scope}
    (here : scopes[index]? = some scope) : sourcesAt scopes index = scope.scopeSources := by
  rw [sourcesAt, here]
  rfl

theorem SourcesFirst.acc {scopes : List Scope} {done order : List Nat}
    (first : SourcesFirst scopes done order)
    (ends : ∀ index ∈ done, Acc (fun source index => source ∈ sourcesAt scopes index) index) :
    ∀ index ∈ order, Acc (fun source index => source ∈ sourcesAt scopes index) index := by
  induction order generalizing done with
  | nil => exact fun _ member => nomatch member
  | cons index rest ih =>
    obtain ⟨-, sources, onward⟩ := first
    have here : Acc (fun source index => source ∈ sourcesAt scopes index) index :=
      Acc.intro index fun source member => ends source (sources source member)
    intro other member
    rcases List.mem_cons.mp member with rfl | later
    · exact here
    · refine ih onward (fun known before => ?_) other later
      rcases List.mem_append.mp before with old | new
      · exact ends known old
      · exact List.mem_singleton.mp new ▸ here

/-- No circle of imports is found exactly when no chain of imports goes on for ever. -/
theorem importCycles_eq_nil {scopes : List Scope}
    (contained : Contained scopes.length (sourcesAt scopes)) :
    importCycles scopes = [] ↔
      ∀ index, Acc (fun source index => source ∈ sourcesAt scopes index) index := by
  let ordering := ImportOrdering.complete scopes
  have found : importCycles scopes = [] ↔
      ∀ index, Acc (fun source index => source ∈ ordering.blocking scopes index) index := by
    unfold importCycles
    rw [List.map_eq_nil_iff]
    refine findCycles_eq_nil (fun index inside source blocks =>
      contained index inside source (ImportOrdering.mem_of_blocking blocks))
      fun index outside => List.eq_nil_iff_forall_not_mem.mpr fun source blocks => ?_
    have none := ImportOrdering.mem_of_blocking blocks
    rw [sourcesAt_of_length_le outside] at none
    cases none
  rw [found]
  constructor
  · intro ends index
    have counted := ImportOrdering.counted_complete scopes
    rcases Nat.lt_or_ge index scopes.length with inside | outside
    · refine counted.forward.acc (fun _ member => nomatch member) index ?_
      have free := ImportOrdering.stuck_eq_nil contained ends
      by_contra unordered
      have stuck := (ImportOrdering.isStuck_complete inside).mpr unordered
      have member : index ∈ ordering.stuck :=
        List.mem_filter.mpr ⟨List.mem_range.mpr (by rw [counted.length]; exact inside), stuck⟩
      rw [free] at member
      cases member
    · exact Acc.intro index fun source member => by simp [sourcesAt_of_length_le outside] at member
  · exact fun ends index => Subrelation.accessible ImportOrdering.mem_of_blocking (ends index)

theorem SourcesFirst.nodup {scopes : List Scope} {done order : List Nat}
    (first : SourcesFirst scopes done order) :
    order.Nodup ∧ ∀ index ∈ order, index ∉ done := by
  induction order generalizing done with
  | nil => exact ⟨.nil, fun _ member => absurd member List.not_mem_nil⟩
  | cons index rest ih =>
    obtain ⟨new, -, onward⟩ := first
    obtain ⟨once, apart⟩ := ih onward
    refine ⟨List.nodup_cons.mpr ⟨fun again => ?_, once⟩, fun other member => ?_⟩
    · exact apart index again (List.mem_append_right _ (List.mem_singleton.mpr rfl))
    · rcases List.mem_cons.mp member with rfl | later
      · exact new
      · exact fun known => apart other later (List.mem_append_left _ known)

/-- Without circles of imports every scope comes once in their order, after its sources. -/
theorem sourcesFirst_importOrder {scopes : List Scope}
    (contained : Contained scopes.length (sourcesAt scopes)) (acyclic : importCycles scopes = []) :
    ∃ order, importOrder scopes = order.map ScopeId.mk ∧ SourcesFirst scopes [] order ∧
      ∀ index, index ∈ order ↔ index < scopes.length := by
  have ends := (importCycles_eq_nil contained).mp acyclic
  have counted := ImportOrdering.counted_complete scopes
  have free := ImportOrdering.stuck_eq_nil contained fun index =>
    Subrelation.accessible ImportOrdering.mem_of_blocking (ends index)
  have all : importOrder scopes = (ImportOrdering.complete scopes).ordered.map ScopeId.mk := by
    unfold importOrder
    dsimp only
    rw [free, List.append_nil]
  refine ⟨_, all, counted.forward, fun index => ⟨fun member => ?_, fun inside => ?_⟩⟩
  · exact counted.inside index (List.mem_append_left _ member)
  · have member := mem_importOrder inside
    rw [all] at member
    obtain ⟨other, listed, same⟩ := List.mem_map.mp member
    rwa [← ScopeId.mk.inj same]

end Wiring
