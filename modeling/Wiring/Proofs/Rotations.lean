import Mathlib.Data.List.Cycle
import Wiring.Diagnostics
import Wiring.Proofs.Circuits

/-!
Cycles up to rotation. A cycle of a graph is one from any of its nodes on. Written from its member
with the least text on, it is the same for all rotations when no two members have one text.
-/

namespace Wiring

section Graph

variable {successors : Nat → List Nat} {cycle other : List Nat}

theorem circular_iff_chain : Circular successors cycle ↔
    cycle ≠ [] ∧ cycle.Nodup ∧
      (cycle : Cycle Nat).Chain fun node next => next ∈ successors node := by
  have chained (first : Nat) (rest : List Nat) :
      (first :: rest : Cycle Nat).Chain (fun node next => next ∈ successors node) ↔
        (first :: rest).IsChain (fun node next => next ∈ successors node) ∧
          first ∈ successors ((first :: rest).getLast (List.cons_ne_nil _ _)) := by
    rw [Cycle.chain_coe_cons, ← List.cons_append, List.isChain_append,
      List.getLast?_eq_some_getLast (List.cons_ne_nil _ _)]
    simp
  cases cycle with
  | nil => exact ⟨fun circular => absurd rfl circular.nonempty, fun cyclic => absurd rfl cyclic.1⟩
  | cons first rest =>
    rw [chained]
    exact ⟨fun circular => ⟨circular.nonempty, circular.distinct, circular.linked, circular.closed⟩,
      fun ⟨nonempty, distinct, linked, closed⟩ => ⟨nonempty, distinct, linked, closed⟩⟩

/-- A cycle is one from any of its nodes on. -/
theorem Circular.of_isRotated (circular : Circular successors cycle)
    (rotated : cycle.IsRotated other) : Circular successors other := by
  obtain ⟨nonempty, distinct, chain⟩ := circular_iff_chain.mp circular
  refine circular_iff_chain.mpr ⟨?_, rotated.nodup_iff.mp distinct, ?_⟩
  · rintro rfl
    exact nonempty (List.isRotated_nil_iff.mp rotated)
  · rwa [← Cycle.coe_eq_coe.mpr rotated]

end Graph

theorem getElem?_leastPosition {texts : List String} (nonempty : texts ≠ []) :
    ∃ least, texts[leastPosition texts]? = some least ∧ ∀ text ∈ texts, least ≤ text := by
  induction texts with
  | nil => exact absurd rfl nonempty
  | cons first rest ih =>
    cases rest with
    | nil => exact ⟨first, rfl, by simp⟩
    | cons second rest =>
      obtain ⟨least, found, below⟩ := ih (List.cons_ne_nil _ _)
      simp only [leastPosition, found]
      split
      · rename_i less
        refine ⟨least, by rw [List.getElem?_cons_succ, found], fun text member => ?_⟩
        rcases List.mem_cons.mp member with rfl | later
        · exact Std.le_of_lt less
        · exact below text later
      · rename_i more
        refine ⟨first, rfl, fun text member => ?_⟩
        rcases List.mem_cons.mp member with rfl | later
        · exact String.le_refl _
        · exact String.le_trans (String.not_lt.mp more) (below text later)

variable {α : Type}

theorem rotateToLeast_eq_rotate (text : α → String) (cycle : List α) :
    rotateToLeast text cycle = cycle.rotate (leastPosition (cycle.map text)) := by
  unfold rotateToLeast List.rotateLeft
  dsimp only
  split
  · rename_i short
    match cycle, short with
    | [], _ => simp
    | [_], _ => simp
  · rename_i long
    rw [← List.rotate_eq_drop_append_take (Nat.le_of_lt (Nat.mod_lt _ (by omega))),
      List.rotate_mod]

theorem isRotated_rotateToLeast (text : α → String) (cycle : List α) :
    (rotateToLeast text cycle).IsRotated cycle := by
  rw [rotateToLeast_eq_rotate]
  exact .symm ⟨_, rfl⟩

theorem head?_rotateToLeast (text : α → String) {cycle : List α} (nonempty : cycle ≠ []) :
    ∃ least, (rotateToLeast text cycle).head? = some least ∧
      ∀ other ∈ cycle, text least ≤ text other := by
  have texts : cycle.map text ≠ [] := by simpa using nonempty
  obtain ⟨shortest, found, below⟩ := getElem?_leastPosition texts
  rw [List.getElem?_map] at found
  obtain ⟨least, here, rfl⟩ := Option.map_eq_some_iff.mp found
  refine ⟨least, ?_, fun other member => below _ (List.mem_map_of_mem member)⟩
  rw [rotateToLeast_eq_rotate, List.head?_rotate (List.getElem?_eq_some_iff.mp here).1, here]

/-- Without repetitions a cycle is known by its first member. -/
theorem eq_of_isRotated_of_head? {first second : List α} (distinct : first.Nodup)
    (rotated : first.IsRotated second) (same : first.head? = second.head?) : first = second := by
  obtain ⟨turns, short, rfl⟩ := List.isRotated_iff_mod.mp rotated
  rcases Nat.lt_or_ge turns first.length with inside | whole
  · rw [List.head?_rotate inside, List.head?_eq_getElem?] at same
    obtain rfl : 0 = turns := (List.getElem?_inj (Nat.zero_lt_of_lt inside) distinct).mp same
    rw [List.rotate_zero]
  · obtain rfl : turns = first.length := Nat.le_antisymm short whole
    rw [List.rotate_length]

/-- The first member of a cycle has the least text. -/
def BeginsLeast (text : α → String) (cycle : List α) : Prop :=
  ∀ first, cycle.head? = some first → ∀ other ∈ cycle, text first ≤ text other

/-- Only one rotation of a cycle has a first member with the least text. -/
def Unambiguous (text : α → String) (cycle : List α) : Prop :=
  ∀ first second, first.IsRotated cycle → second.IsRotated cycle →
    BeginsLeast text first → BeginsLeast text second → first = second

theorem beginsLeast_rotateToLeast (text : α → String) (cycle : List α) :
    BeginsLeast text (rotateToLeast text cycle) := by
  intro first head other member
  have rotated := isRotated_rotateToLeast text cycle
  have nonempty : cycle ≠ [] := by
    rintro rfl
    rw [List.isRotated_nil_iff.mp rotated] at head
    cases head
  obtain ⟨least, found, below⟩ := head?_rotateToLeast text nonempty
  obtain rfl := Option.some.inj (found.symm.trans head)
  exact below other (rotated.mem_iff.mp member)

/-- A cycle that begins with a least text is written as it is. -/
theorem BeginsLeast.rotateToLeast_eq {text : α → String} {cycle : List α}
    (begins : BeginsLeast text cycle) : rotateToLeast text cycle = cycle := by
  rw [rotateToLeast_eq_rotate]
  suffices first : leastPosition (cycle.map text) = 0 by rw [first, List.rotate_zero]
  match cycle with
  | [] => rfl
  | [_] => rfl
  | first :: second :: rest =>
    obtain ⟨least, found, -⟩ :=
      getElem?_leastPosition (List.cons_ne_nil (text second) (rest.map text))
    obtain ⟨other, member, rfl⟩ :=
      List.mem_map.mp (List.mem_of_getElem? found : least ∈ (second :: rest).map text)
    have below := begins first rfl other (List.mem_cons_of_mem _ member)
    simp only [List.map_cons, leastPosition, found]
    exact if_neg (String.not_lt.mpr below)

/-- The rotations of a cycle are all written in one way exactly when only one of them begins with a
least text. -/
theorem unambiguous_iff {text : α → String} {cycle : List α} : Unambiguous text cycle ↔
    ∀ rotated : List α, rotated.IsRotated cycle →
      rotateToLeast text rotated = rotateToLeast text cycle := by
  have written (rotated : List α) := isRotated_rotateToLeast text rotated
  constructor
  · intro unambiguous rotated turned
    exact unambiguous _ _ ((written rotated).trans turned) (written cycle)
      (beginsLeast_rotateToLeast text rotated) (beginsLeast_rotateToLeast text cycle)
  · intro same first second turned turned' begins begins'
    rw [← begins.rotateToLeast_eq, ← begins'.rotateToLeast_eq, same first turned,
      same second turned']

/-- A cycle without repeated texts is unambiguous. -/
theorem unambiguous_of_nodup {text : α → String} {cycle : List α}
    (distinct : (cycle.map text).Nodup) : Unambiguous text cycle := by
  intro first second rotated rotated' begins begins'
  rcases eq_or_ne cycle [] with rfl | nonempty
  · rw [List.isRotated_nil_iff.mp rotated, List.isRotated_nil_iff.mp rotated']
  have exists_head {turned : List α} (rotated : turned.IsRotated cycle) :
      ∃ least ∈ cycle, turned.head? = some least := by
    cases turned with
    | nil => exact absurd (List.isRotated_nil_iff'.mp rotated).symm nonempty
    | cons least rest => exact ⟨least, rotated.mem_iff.mp List.mem_cons_self, rfl⟩
  obtain ⟨least, member, head⟩ := exists_head rotated
  obtain ⟨least', member', head'⟩ := exists_head rotated'
  have same : least = least' := by
    refine List.inj_on_of_nodup_map distinct member member' (String.le_antisymm ?_ ?_)
    · exact begins least head least' (rotated.mem_iff.mpr member')
    · exact begins' least' head' least (rotated'.mem_iff.mpr member)
  exact eq_of_isRotated_of_head? (rotated.nodup_iff.mpr distinct.of_map)
    (rotated.trans rotated'.symm) (by rw [head, head', same])

/-- Of the rotations of a cycle without repeated texts one is written. -/
theorem rotateToLeast_eq_of_isRotated (text : α → String) {first second : List α}
    (distinct : (first.map text).Nodup) (rotated : first.IsRotated second) :
    rotateToLeast text first = rotateToLeast text second :=
  (unambiguous_iff.mp (unambiguous_of_nodup distinct) second rotated.symm).symm

end Wiring
