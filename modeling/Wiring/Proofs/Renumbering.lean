import Mathlib.Logic.Equiv.Defs
import Wiring.Proofs.Correspondence

/-!
Rows of resolutions whose entries are numbered differently. Two rows mirror each other when they
hold the same producers under the same keys, in any order and up to the numbers. They still do after
both have received the same, as long as nothing that is received disagrees with what is held: which
of several pairs is held then does not matter.
-/

namespace Wiring

namespace Delegate

/-- A delegate when the entries have new numbers. -/
def move (moved : Equiv.Perm EntryId) : Delegate → Delegate
  | .entry target => .entry (moved target)
  | .foreign imported => .foreign imported

/-- The second delegate leads to the producer of the first one, which has a new number. -/
def Moves (moved : Equiv.Perm EntryId) (left right : Delegate) : Prop :=
  (left.move moved).Same right

variable {moved : Equiv.Perm EntryId} {left right left' right' other : Delegate}

theorem moves_move (moved : Equiv.Perm EntryId) (delegate : Delegate) :
    delegate.Moves moved (delegate.move moved) := .refl _

@[simp] theorem same_move (moved : Equiv.Perm EntryId) :
    (left.move moved).Same (right.move moved) ↔ left.Same right := by
  cases left <;> cases right <;> simp [move, Same]

theorem Moves.symm (moves : left.Moves moved right) : right.Moves moved.symm left := by
  cases left with
  | entry target =>
    cases right with
    | entry other => exact (Equiv.symm_apply_eq moved).mpr (Eq.symm moves)
    | foreign other => exact moves.elim
  | foreign imported =>
    cases right with
    | entry other => exact moves.elim
    | foreign other => exact Same.symm moves

/-- What has one producer still has one under the new numbers. -/
theorem Moves.same_iff (moves : left.Moves moved right) (moves' : left'.Moves moved right') :
    left.Same left' ↔ right.Same right' := by
  rw [← same_move moved]
  constructor
  · exact fun same => (Same.symm moves).trans (same.trans moves')
  · exact fun same => Same.trans moves (same.trans (Same.symm moves'))

end Delegate

namespace Row

variable {moved : Equiv.Perm EntryId} {left right more more' : Row} {key : Key}

/-- A row when the entries have new numbers. -/
def move (moved : Equiv.Perm EntryId) (row : Row) : Row :=
  row.map fun pair => (pair.1, pair.2.move moved)

/-- Two rows hold the same producers under the same keys, up to the numbers. -/
def Mirrors (moved : Equiv.Perm EntryId) (left right : Row) : Prop :=
  ∀ key, Option.Rel (Delegate.Moves moved) (left.get? key) (right.get? key)

/-- Every pair of the second row is one of the first row, up to the numbers. -/
def Covers (moved : Equiv.Perm EntryId) (left right : Row) : Prop :=
  ∀ other ∈ right, ∃ pair ∈ left, pair.1 = other.1 ∧ pair.2.Moves moved other.2

@[simp] theorem keys_move (moved : Equiv.Perm EntryId) (row : Row) :
    (row.move moved).keys = row.keys := by
  simp [move, keys]

theorem keeps_move (spec : ImportSpec) (row : Row) :
    spec.keeps (row.move moved) = (spec.keeps row).move moved := by
  unfold ImportSpec.keeps move
  rw [List.filterMap_map, List.map_filterMap]
  refine List.filterMap_congr fun pair _ => ?_
  cases kept : spec.apply pair.1 <;> simp [kept]

theorem Mirrors.symm (mirrors : left.Mirrors moved right) : right.Mirrors moved.symm left := by
  intro key
  have here := mirrors key
  generalize left.get? key = held at here ⊢
  generalize right.get? key = held' at here ⊢
  cases here with
  | none => exact .none
  | some moves => exact .some moves.symm

theorem Mirrors.mem_keys (mirrors : left.Mirrors moved right) :
    key ∈ left.keys ↔ key ∈ right.keys := by
  have here := mirrors key
  rw [← not_iff_not, ← get?_eq_none, ← get?_eq_none]
  generalize left.get? key = held at here ⊢
  generalize right.get? key = held' at here ⊢
  cases here <;> simp

/-- Rows that mirror each other and repeat no key have the same keys in some order. -/
theorem Mirrors.perm_keys (mirrors : left.Mirrors moved right) (distinct : left.keys.Nodup)
    (distinct' : right.keys.Nodup) : left.keys.Perm right.keys :=
  (List.perm_ext_iff_of_nodup distinct distinct').mpr fun _ => mirrors.mem_keys

/-- A row that repeats no key is mirrored by every order of it. -/
theorem mirrors_of_perm (distinct : left.keys.Nodup) (perm : (left.move moved).Perm right) :
    left.Mirrors moved right := by
  have same : left.keys.Perm right.keys := by
    rw [← keys_move moved left]
    exact perm.map Prod.fst
  intro key
  cases held : left.get? key with
  | none =>
    have absent := get?_eq_none.mp held
    rw [same.mem_iff, ← get?_eq_none] at absent
    rw [absent]
    exact .none
  | some target =>
    have member : (key, target.move moved) ∈ right :=
      perm.mem_iff.mp (List.mem_map.mpr ⟨_, mem_of_get? held, rfl⟩)
    rw [get?_of_mem (same.nodup_iff.mp distinct) member]
    exact .some (target.moves_move moved)

/-- A pair of a mirrored row is found in the other one. -/
theorem Mirrors.exists_of_get? (mirrors : left.Mirrors moved right) {target : Delegate}
    (held : right.get? key = some target) :
    ∃ other, left.get? key = some other ∧ other.Moves moved target := by
  have here := mirrors key
  rw [held] at here
  generalize left.get? key = found at here
  cases here with
  | some moves => exact ⟨_, rfl, moves⟩

theorem Mirrors.finds_iff (mirrors : left.Mirrors moved right) {spec : ExportSpec} :
    spec.Finds left ↔ spec.Finds right := by
  cases spec with
  | keyed key exportAs => exact mirrors.mem_keys
  | all => exact Iff.rfl

/-- What goes out of a mirrored row goes out of the other one too. -/
theorem Mirrors.covers_outward (mirrors : left.Mirrors moved right) (distinct : right.keys.Nodup)
    {scope scope' : Scope} (exports : scope.exports.Perm scope'.exports) :
    (scope.outward left).Covers moved (scope'.outward right) := by
  intro other member
  obtain ⟨spec, among, sent⟩ := List.mem_flatMap.mp member
  have declared := exports.mem_iff.mpr among
  cases spec with
  | all =>
    obtain ⟨target, held, moves⟩ := mirrors.exists_of_get? (get?_of_mem distinct sent)
    exact ⟨(other.1, target), List.mem_flatMap.mpr ⟨_, declared, mem_of_get? held⟩, rfl, moves⟩
  | keyed key exportAs =>
    obtain ⟨target', held', rfl⟩ : ∃ target, right.get? key = some target ∧
        (exportAs, target) = other := by
      simpa [ExportSpec.sends] using sent
    obtain ⟨target, held, moves⟩ := mirrors.exists_of_get? held'
    exact ⟨(exportAs, target),
      List.mem_flatMap.mpr ⟨_, declared, by simp [ExportSpec.sends, held]⟩, rfl, moves⟩

/-- Pairs that are covered by pairs which agree with a row agree with a row that mirrors it. -/
theorem Agreeing.of_mirrors (agreeing : left.Agreeing more) (mirrors : left.Mirrors moved right)
    (covers : more.Covers moved more') : right.Agreeing more' := by
  rw [agreeing_iff] at agreeing ⊢
  simp only [get?_receiveAll] at agreeing ⊢
  intro other member held' known'
  obtain ⟨pair, among, same, moves⟩ := covers other member
  have here := mirrors other.1
  cases held : left.get? other.1 with
  | some target =>
    rw [held] at here
    obtain ⟨target', found, leads⟩ := exists_of_rel_some here
    obtain rfl : target' = held' := by simpa [found] using known'
    exact (leads.same_iff moves).mp (agreeing pair among target (by rw [same, held]; rfl))
  | none =>
    rw [held] at here
    rw [eq_none_of_rel here, Option.none_or] at known'
    -- The first pair of the key agrees with both, so they agree with each other.
    obtain ⟨first, began⟩ := exists_of_mem_keys (List.mem_map.mpr ⟨pair, among, same⟩)
    have first_held : (left.get? other.1).or (more.get? other.1) = some first := by
      rw [held, began]
      rfl
    obtain ⟨source, listed, named, leads⟩ := covers _ (mem_of_get? known')
    have own := agreeing pair among first (by rw [same]; exact first_held)
    have its := agreeing source listed first (by rw [named]; exact first_held)
    exact (leads.same_iff moves).mp (its.symm.trans own)

/-- Rows that mirror each other still do after they have received pairs that agree. -/
theorem Mirrors.receiveAll (mirrors : left.Mirrors moved right) (agreeing : left.Agreeing more)
    (covers : more.Covers moved more') (covers' : more'.Covers moved.symm more) :
    (left.receiveAll more).Mirrors moved (right.receiveAll more') := by
  intro key
  have here := mirrors key
  rw [get?_receiveAll, get?_receiveAll]
  cases held : left.get? key with
  | some target =>
    rw [held] at here
    obtain ⟨target', found, moves⟩ := exists_of_rel_some here
    rw [found]
    exact .some moves
  | none =>
    rw [held] at here
    rw [eq_none_of_rel here, Option.none_or, Option.none_or]
    cases began : more.get? key with
    | none =>
      have absent : more'.get? key = none := by
        rw [get?_eq_none] at began ⊢
        intro member
        obtain ⟨other, listed, rfl⟩ := List.mem_map.mp member
        obtain ⟨pair, among, same, -⟩ := covers other listed
        exact began (List.mem_map.mpr ⟨pair, among, same⟩)
      rw [absent]
      exact .none
    | some first =>
      obtain ⟨other, listed, named, -⟩ := covers' _ (mem_of_get? began)
      obtain ⟨first', began'⟩ := exists_of_mem_keys (List.mem_map.mpr ⟨other, listed, named⟩)
      obtain ⟨pair, among, same, moves⟩ := covers _ (mem_of_get? began')
      have agree : first.Same pair.2 := by
        refine agreeing_iff.mp agreeing pair among first ?_
        rw [same, get?_receiveAll, held, began]
        rfl
      rw [began']
      exact .some (((Delegate.same_move moved).mpr agree).trans moves)

end Row

end Wiring
