import Wiring.Evaluation

/-!
Lazy cells as a whole. The outcome of a cell, the state that it shows and its invoker are written at
different moments of a reading, and a panic stores through the unwinding. Seen as a whole a cell is
empty, computing, ready or failed. Where an invocation leaves alone what is not empty, so that the
cell that it is to fill is still computing at its end, a reading goes as if a cell were one of the
four and were overwritten.
-/

namespace Wiring

/-- What a lazy cell has come to. -/
inductive Cell where
  | empty
  | computing
  | ready (handle : Instance)
  | failed (error : ConstructionError)

/-- The pieces of a cell that has come to this. -/
def Cell.full : Cell → LazyCell
  | .empty => .new
  | .computing => ⟨none, .computing, false⟩
  | .ready handle => ⟨some (.ok handle), .ready, false⟩
  | .failed error => ⟨some (.error error), .failed, false⟩

namespace LazyCell

/-- What a cell has come to, by its outcome and its invoker. -/
def view (cell : LazyCell) : Cell :=
  match cell.outcome, cell.invoker with
  | some (.ok handle), _ => .ready handle
  | some (.error error), _ => .failed error
  | none, true => .empty
  | none, false => .computing

/-- The pieces of a cell tell the same. -/
structure Tied (cell : LazyCell) : Prop where
  uninitialized_iff : cell.state = .uninitialized ↔ cell.invoker = true
  computing_iff : cell.state = .computing ↔ cell.invoker = false ∧ cell.outcome = none
  ready_iff : cell.state = .ready ↔ ∃ handle, cell.outcome = some (.ok handle)
  failed_iff : cell.state = .failed ↔ ∃ error, cell.outcome = some (.error error)

@[simp] theorem view_full (cell : Cell) : cell.full.view = cell := by
  cases cell <;> rfl

theorem tied_full (cell : Cell) : cell.full.Tied := by
  cases cell <;> exact ⟨by simp [Cell.full, new], by simp [Cell.full, new],
    by simp [Cell.full, new], by simp [Cell.full, new]⟩

/-- The pieces are tied when they are those of what the cell has come to. -/
theorem tied_iff {cell : LazyCell} : cell.Tied ↔ cell = cell.view.full := by
  constructor
  · obtain ⟨outcome, state, invoker⟩ := cell
    rintro ⟨uninitialized, computing, ready, failed⟩
    dsimp only at uninitialized computing ready failed
    cases state with
    | uninitialized =>
      obtain rfl := uninitialized.mp rfl
      rcases outcome with _ | error | handle
      · rfl
      · exact nomatch failed.mpr ⟨error, rfl⟩
      · exact nomatch ready.mpr ⟨handle, rfl⟩
    | computing =>
      obtain ⟨rfl, rfl⟩ := computing.mp rfl
      rfl
    | ready =>
      obtain ⟨handle, rfl⟩ := ready.mp rfl
      cases invoker with
      | true => exact nomatch uninitialized.mpr rfl
      | false => rfl
    | failed =>
      obtain ⟨error, rfl⟩ := failed.mp rfl
      cases invoker with
      | true => exact nomatch uninitialized.mpr rfl
      | false => rfl
  · intro same
    rw [same]
    exact tied_full cell.view

theorem Tied.eq_new {cell : LazyCell} (tied : cell.Tied) (fresh : cell.state = .uninitialized) :
    cell = .new := by
  rw [tied_iff.mp tied] at fresh ⊢
  generalize cell.view = whole at fresh ⊢
  cases whole with
  | empty => rfl
  | computing => cases fresh
  | ready handle => cases fresh
  | failed error => cases fresh

/-- A cell that computes keeps the outcome that is offered. -/
theorem store_computing (offered : Except ConstructionError Instance) :
    Cell.computing.full.kept offered = offered ∧
      Cell.computing.full.store offered =
        match offered with
        | .ok handle => (Cell.ready handle).full
        | .error error => (Cell.failed error).full := by
  cases offered <;> exact ⟨rfl, rfl⟩

end LazyCell

namespace Memory

variable {before middle after : Memory} {id other : AccessorId}

/-- What each cell has come to. -/
def cells (memory : Memory) (id : AccessorId) : Cell := (memory.lazies id).view

/-- All pieces of a cell are overwritten. -/
def store (memory : Memory) (id : AccessorId) (cell : Cell) : Memory :=
  memory.update id fun _ => cell.full

theorem store_lazies_self (memory : Memory) (id : AccessorId) (cell : Cell) :
    (memory.store id cell).lazies id = cell.full :=
  memory.update_lazies_self id _

theorem store_lazies_of_ne (memory : Memory) (cell : Cell) (different : other ≠ id) :
    (memory.store id cell).lazies other = memory.lazies other :=
  memory.update_lazies_of_ne _ different

@[simp] theorem store_cells_self (memory : Memory) (id : AccessorId) (cell : Cell) :
    (memory.store id cell).cells id = cell := by
  rw [cells, store_lazies_self, LazyCell.view_full]

theorem store_cells_of_ne (memory : Memory) (cell : Cell) (different : other ≠ id) :
    (memory.store id cell).cells other = memory.cells other := by
  rw [cells, store_lazies_of_ne memory cell different, cells]

@[simp] theorem store_history (memory : Memory) (id : AccessorId) (cell : Cell) :
    (memory.store id cell).history = memory.history := rfl

@[simp] theorem record_cells (memory : Memory) (moment : Moment) :
    (memory.record moment).cells = memory.cells := rfl

/-- In every cell the pieces tell the same. -/
def Tied (memory : Memory) : Prop := ∀ id, (memory.lazies id).Tied

theorem Tied.store (tied : before.Tied) (id : AccessorId) (cell : Cell) :
    (before.store id cell).Tied := by
  intro other
  by_cases same : other = id
  · rw [same, store_lazies_self]
    exact LazyCell.tied_full cell
  · rw [store_lazies_of_ne _ _ same]
    exact tied other

/-- A cell that is not empty goes on to hold what it holds, and tied pieces stay tied. -/
structure Latches (before after : Memory) : Prop where
  lazies : ∀ id, before.cells id ≠ .empty → after.lazies id = before.lazies id
  tied : before.Tied → after.Tied

theorem Latches.of_lazies (same : after.lazies = before.lazies) : before.Latches after :=
  ⟨fun id _ => congrFun same id, fun tied => by rwa [Tied, same]⟩

theorem Latches.refl (memory : Memory) : memory.Latches memory := .of_lazies rfl

theorem Latches.cells (latches : before.Latches after) (filled : before.cells id ≠ .empty) :
    after.cells id = before.cells id :=
  congrArg LazyCell.view (latches.lazies id filled)

theorem Latches.trans (latches : before.Latches middle) (onward : middle.Latches after) :
    before.Latches after := by
  refine ⟨fun id filled => ?_, fun tied => onward.tied (latches.tied tied)⟩
  rw [onward.lazies id (by rwa [latches.cells filled]), latches.lazies id filled]

theorem latches_store (empty : before.cells id = .empty) (cell : Cell) :
    before.Latches (before.store id cell) := by
  refine ⟨fun other filled => store_lazies_of_ne _ _ ?_, fun tied => tied.store id cell⟩
  rintro rfl
  exact filled empty

/-- What is stored in a cell that was empty is no change of a cell that was not. -/
theorem Latches.store {first cell : Cell} (empty : before.cells id = .empty)
    (latches : (before.store id first).Latches after) : before.Latches (after.store id cell) := by
  refine ⟨fun other filled => ?_, fun tied => (latches.tied (tied.store id first)).store id cell⟩
  have different : other ≠ id := by
    rintro rfl
    exact filled empty
  have same := latches.lazies other
  rw [store_cells_of_ne _ _ different, store_lazies_of_ne _ _ different] at same
  rw [store_lazies_of_ne _ _ different, same filled]

/-- A cell that computes is still computing. -/
theorem Latches.computing {memory : Memory} (latches : (memory.store id .computing).Latches after) :
    after.lazies id = Cell.computing.full := by
  have same := latches.lazies id
  rw [store_cells_self, store_lazies_self] at same
  exact same nofun

end Memory

/-- The only invocation of a lazy accessor where no other reading touches the cell: it finds the
cell computing, and overwrites it. -/
def settling (id : AccessorId) (key : Key) (invocation : Evaluation Instance) :
    Evaluation Instance := fun memory =>
  match invocation (memory.store id .computing) with
  | (.value handle, memory) =>
    (.value handle, (memory.report (.lazyConstructed key)).store id (.ready handle))
  | (.error error, memory) =>
    (.error error, (memory.report (.lazyFailed key error)).store id (.failed error))
  | (.panic message, memory) => (.panic message, memory.store id (.failed (.panicked key)))
  | (.exhausted, memory) => (.exhausted, memory)

/-- A reading of a lazy accessor by what its cell has come to. -/
def recalling (id : AccessorId) (key : Key) (invocation : Evaluation Instance) :
    Evaluation Instance := fun memory =>
  match memory.cells id with
  | .ready handle => (.value handle, memory)
  | .failed error => (.error error, memory)
  | .computing => (.error (.reentrant key), memory)
  | .empty => settling id key invocation memory

section Simulation

variable {id : AccessorId} {key : Key} {invocation : Evaluation Instance} {memory : Memory}

/-- What is offered to a cell that computes is kept. -/
theorem storeOutcome_of_computing (computing : memory.lazies id = Cell.computing.full)
    (offered : Except ConstructionError Instance) :
    storeOutcome id offered memory =
      (.ofExcept offered, memory.store id <|
        match offered with
        | .ok handle => .ready handle
        | .error error => .failed error) := by
  obtain ⟨kept, stored⟩ := LazyCell.store_computing offered
  have update : memory.update id (fun cell => cell.store offered) =
      memory.update id fun _ => Cell.computing.full.store offered := by
    simp only [Memory.update, computing]
  rw [storeOutcome, computing, kept, update, stored, Memory.store]
  cases offered <;> rfl

/-- The invoker is taken from a cell without an outcome, and the cell computes. -/
theorem begin_eq_store (unknown : (memory.lazies id).outcome = none) :
    (memory.update id fun cell => cell.take.mark .computing) = memory.store id .computing := by
  simp only [Memory.update, Memory.store, LazyCell.take, LazyCell.mark, unknown, Cell.full]

/-- An invocation that does not touch the cell overwrites it with what it came to. -/
theorem settle_eq_settling (unknown : (memory.lazies id).outcome = none)
    (latches : (memory.store id .computing).Latches (invocation (memory.store id .computing)).2) :
    settle id key invocation memory = settling id key invocation memory := by
  have computing := latches.computing
  simp only [settle, settling, begin_eq_store unknown, Attempt.unwinding]
  rcases ran : invocation (memory.store id .computing) with ⟨ending, after⟩
  rw [ran] at computing
  have kept (event : Event) : (after.report event).lazies id = Cell.computing.full := computing
  cases ending with
  | value handle => exact storeOutcome_of_computing (kept _) (.ok handle)
  | error error => exact storeOutcome_of_computing (kept _) (.error error)
  | panic message =>
    have stored := storeOutcome_of_computing computing (.error (.panicked key))
    exact congrArg (fun last => (Ending.panic message, last.2)) stored
  | exhausted => rfl

/-- A reading of a lazy accessor goes by what its cell has come to, when its invocation latches. -/
theorem recollect_eq_recalling
    (latches : ∀ memory : Memory, memory.Latches (invocation memory).2) :
    recollect id key invocation = recalling id key invocation := by
  funext memory
  simp only [recollect, recalling, Memory.cells, LazyCell.view]
  cases stored : (memory.lazies id).outcome with
  | some outcome => cases outcome <;> rfl
  | none =>
    cases (memory.lazies id).invoker with
    | false => rfl
    | true => exact settle_eq_settling stored (latches _)

end Simulation

end Wiring
