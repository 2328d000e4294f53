import Wiring.Proofs.DependencyCycles
import Wiring.Stock

/-!
Cycles as they are recorded. A cycle is recorded from its member with the least text on, the first
one if there are several. So the rotations of a cycle are recorded as one when a single rotation
begins with the least text, as it does when all texts differ. Where two keys print the same, or a
key repeats, two rotations of one cycle can both be recorded.
-/

namespace Wiring

namespace Diagnostics

variable {diagnostics : Diagnostics} {cycle rotated : List Key}

theorem recordDependencyCycle_eq_self_iff : diagnostics.recordDependencyCycle cycle = diagnostics ↔
    rotateToLeast Key.shown cycle ∈ diagnostics.dependencyCycles := by
  constructor
  · intro same
    rw [← same]
    exact mem_joinNew_iff.mpr (.inr rfl)
  · intro known
    have joined : joinNew (fun old new => old == new) diagnostics.dependencyCycles
        (rotateToLeast Key.shown cycle) = diagnostics.dependencyCycles :=
      if_pos (by simpa using known)
    rw [recordDependencyCycle, joined]

/-- Of two cycles in turn the second one changes nothing when it is written as the first one is, or
was recorded before. -/
theorem recordDependencyCycle_twice_iff :
    (diagnostics.recordDependencyCycle cycle).recordDependencyCycle rotated =
        diagnostics.recordDependencyCycle cycle ↔
      rotateToLeast Key.shown rotated ∈ diagnostics.dependencyCycles ∨
        rotateToLeast Key.shown rotated = rotateToLeast Key.shown cycle :=
  recordDependencyCycle_eq_self_iff.trans mem_joinNew_iff

/-- Cycles are recorded up to rotation as far as the least text tells where they begin. Whatever
cycles are reported, no path is recorded twice, each path is a rotation of a reported cycle and
begins with the least text, each reported cycle has a rotation that is recorded, and two recorded
paths that are rotations of each other are ambiguous: they have more than one rotation that begins
with the least text. A report of a rotation after its cycle never changes the record exactly when
the cycle is unambiguous, which it is when its keys print differently. -/
theorem records_rotations (cycles : List (List Key)) (cycle : List Key) :
    let recorded := (cycles.foldl recordDependencyCycle empty).dependencyCycles
    (recorded.Nodup ∧
      (∀ path ∈ recorded, BeginsLeast Key.shown path ∧
        ∃ reported ∈ cycles, path.IsRotated reported) ∧
      (∀ reported ∈ cycles, ∃ path ∈ recorded, path.IsRotated reported) ∧
      (∀ path ∈ recorded, ∀ other ∈ recorded, path.IsRotated other → path ≠ other →
        ¬ Unambiguous Key.shown path)) ∧
    (Unambiguous Key.shown cycle ↔
      ∀ (diagnostics : Diagnostics) (rotated : List Key), rotated.IsRotated cycle →
        (diagnostics.recordDependencyCycle cycle).recordDependencyCycle rotated =
          diagnostics.recordDependencyCycle cycle) ∧
    ((cycle.map Key.shown).Nodup → Unambiguous Key.shown cycle) := by
  intro recorded
  have written : recorded = _ := dependencyCycles_recorded empty cycles
  have found {path : List Key} :
      path ∈ recorded ↔ ∃ reported ∈ cycles, rotateToLeast Key.shown reported = path := by
    rw [written, mem_foldl_joinNew, List.mem_map]
    simp [empty]
  have least {path : List Key} (member : path ∈ recorded) : BeginsLeast Key.shown path := by
    obtain ⟨reported, -, rfl⟩ := found.mp member
    exact beginsLeast_rotateToLeast Key.shown reported
  refine ⟨⟨?_, fun path member => ⟨least member, ?_⟩, fun reported listed => ?_, ?_⟩, ?_,
    unambiguous_of_nodup⟩
  · exact written ▸ nodup_foldl_joinNew .nil
  · obtain ⟨reported, listed, rfl⟩ := found.mp member
    exact ⟨reported, listed, isRotated_rotateToLeast _ _⟩
  · exact ⟨_, found.mpr ⟨reported, listed, rfl⟩, isRotated_rotateToLeast _ _⟩
  · intro path member other member' rotated different unambiguous
    exact different
      (unambiguous path other (.refl _) rotated.symm (least member) (least member'))
  · rw [unambiguous_iff]
    constructor
    · intro same diagnostics rotated turned
      exact recordDependencyCycle_twice_iff.mpr (.inr (same rotated turned))
    · intro unchanged rotated turned
      rcases recordDependencyCycle_twice_iff.mp (unchanged empty rotated turned) with before | same
      · cases before
      · exact same

end Diagnostics

namespace Host

/-- A host that is about to build two scopes. In each one two sums depend on each other; their keys
print the same, and the scopes declare them in opposite order. -/
def twinned : Host :=
  let first := Signature.adding ⟨.firstTwin, [.secondTwin]⟩
  let second := Signature.adding ⟨.secondTwin, [.firstTwin]⟩
  (Host.new.start (.named "app")).declareEach
    [.link "first" ⟨"first", .nothing⟩ fun _ => [.provide first [], .provide second []],
      .link "second" ⟨"second", .nothing⟩ fun _ => [.provide second [], .provide first []]]

theorem reachable_twinned : twinned.Reachable :=
  ⟨0, .head (.start _ _) (leads_declareEach _ _ fun _ =>
    ⟨fun _ => ⟨trivial, trivial, trivial⟩, fun _ => ⟨trivial, trivial, trivial⟩, trivial⟩)⟩

end Host

/-- The assembly that this host is about to build. -/
def Assembly.twinned : Assembly := Host.twinned.assembly.get (by decide +kernel)

/-- A build can record two rotations of one cycle. -/
theorem Host.twinned_rotations_recorded :
    twinned.Reachable ∧ twinned.assembly = some Assembly.twinned ∧
      ∃ path ∈ Assembly.twinned.survey.diagnostics.dependencyCycles,
        ∃ other ∈ Assembly.twinned.survey.diagnostics.dependencyCycles,
          path.IsRotated other ∧ path ≠ other := by
  have recorded : Assembly.twinned.survey.diagnostics.dependencyCycles =
      [[.of .firstTwin, .of .secondTwin], [.of .secondTwin, .of .firstTwin]] := by decide +kernel
  refine ⟨reachable_twinned, (Option.some_get _).symm, [.of .firstTwin, .of .secondTwin], ?_,
    [.of .secondTwin, .of .firstTwin], ?_, ⟨1, rfl⟩, by decide⟩
  · rw [recorded]
    exact List.mem_cons_self
  · rw [recorded]
    exact List.mem_cons_of_mem _ List.mem_cons_self

end Wiring
