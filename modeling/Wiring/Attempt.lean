/-!
Attempts: computations that read and change a state and may not succeed. An attempt ends in a
value, in an error, in a panic that unwinds through everything around it, or not at all within the
given bound. Whatever its end, the state that it leaves is kept.
-/

namespace Wiring

/-- How an attempt ends. -/
inductive Ending (ε α : Type) where
  | value (value : α)
  | error (error : ε)
  | panic (message : String)
  | exhausted

/-- The ending that an outcome stands for. -/
def Ending.ofExcept {ε α : Type} : Except ε α → Ending ε α
  | .ok result => .value result
  | .error reason => .error reason

/-- A computation on a state with an ending. -/
def Attempt (σ ε α : Type) : Type := σ → Ending ε α × σ

namespace Attempt

variable {σ ε δ α β : Type}

/-- The attempt that gives a value and leaves the state alone. -/
def done (value : α) : Attempt σ ε α := fun state => (.value value, state)

/-- The attempt that ends in an error. -/
def fail (error : ε) : Attempt σ ε α := fun state => (.error error, state)

/-- The attempt that ends in a panic. -/
def panic (message : String) : Attempt σ ε α := fun state => (.panic message, state)

/-- The attempt that reaches its bound. -/
def exhaust : Attempt σ ε α := fun state => (.exhausted, state)

/-- The first attempt and, after a value, the next one. -/
def andThen (first : Attempt σ ε α) (next : α → Attempt σ ε β) : Attempt σ ε β := fun state =>
  match first state with
  | (.value value, state) => next value state
  | (.error error, state) => (.error error, state)
  | (.panic message, state) => (.panic message, state)
  | (.exhausted, state) => (.exhausted, state)

instance : Monad (Attempt σ ε) where
  pure := done
  bind := andThen

/-- A fact about the state. -/
def observe (fact : σ → α) : Attempt σ ε α := fun state => (.value (fact state), state)

/-- A change of the state. -/
def change (update : σ → σ) : Attempt σ ε Unit := fun state => (.value (), update state)

/-- The same attempt with other errors. -/
def mapError (adapt : ε → δ) (attempt : Attempt σ ε α) : Attempt σ δ α := fun state =>
  match attempt state with
  | (.value value, state) => (.value value, state)
  | (.error error, state) => (.error (adapt error), state)
  | (.panic message, state) => (.panic message, state)
  | (.exhausted, state) => (.exhausted, state)

/-- The value or the error of an attempt as a value. -/
def outcome (attempt : Attempt σ ε α) : Attempt σ δ (Except ε α) := fun state =>
  match attempt state with
  | (.value value, state) => (.value (.ok value), state)
  | (.error error, state) => (.value (.error error), state)
  | (.panic message, state) => (.panic message, state)
  | (.exhausted, state) => (.exhausted, state)

/-- The ending of an attempt as a value. -/
def ending (attempt : Attempt σ ε α) : Attempt σ δ (Ending ε α) := fun state =>
  match attempt state with
  | (ending, state) => (.value ending, state)

/-- An attempt between two changes of the state; the second one comes whatever the ending. -/
def between (before after : σ → σ) (attempt : Attempt σ ε α) : Attempt σ ε α := fun state =>
  match attempt (before state) with
  | (ending, state) => (ending, after state)

/-- An attempt with a change of the state that a panic makes while it unwinds. -/
def unwinding (cleanup : σ → σ) (attempt : Attempt σ ε α) : Attempt σ ε α := fun state =>
  match attempt state with
  | (.panic message, state) => (.panic message, cleanup state)
  | (.value value, state) => (.value value, state)
  | (.error error, state) => (.error error, state)
  | (.exhausted, state) => (.exhausted, state)

/-- An attempt on the first part of a state. -/
def onFirst {τ : Type} (attempt : Attempt σ ε α) : Attempt (σ × τ) ε α := fun state =>
  match attempt state.1 with
  | (ending, first) => (ending, (first, state.2))

/-- An attempt for each item in turn, up to the first that gives no value. -/
def forEach (attempt : α → Attempt σ ε β) : List α → Attempt σ ε (List β)
  | [] => done []
  | item :: rest =>
    andThen (attempt item) fun value =>
      andThen (forEach attempt rest) fun values => done (value :: values)

@[simp] theorem pure_apply (value : α) (state : σ) :
    (pure value : Attempt σ ε α) state = (.value value, state) := rfl

@[simp] theorem done_apply (value : α) (state : σ) :
    (done value : Attempt σ ε α) state = (.value value, state) := rfl

@[simp] theorem fail_apply (error : ε) (state : σ) :
    (fail error : Attempt σ ε α) state = (.error error, state) := rfl

@[simp] theorem panic_apply (message : String) (state : σ) :
    (panic message : Attempt σ ε α) state = (.panic message, state) := rfl

@[simp] theorem exhaust_apply (state : σ) :
    (exhaust : Attempt σ ε α) state = (.exhausted, state) := rfl

@[simp] theorem observe_apply (fact : σ → α) (state : σ) :
    (observe fact : Attempt σ ε α) state = (.value (fact state), state) := rfl

@[simp] theorem change_apply (update : σ → σ) (state : σ) :
    (change update : Attempt σ ε Unit) state = (.value (), update state) := rfl

theorem bind_apply (first : Attempt σ ε α) (next : α → Attempt σ ε β) (state : σ) :
    (first >>= next) state =
      match first state with
      | (.value value, state) => next value state
      | (.error error, state) => (.error error, state)
      | (.panic message, state) => (.panic message, state)
      | (.exhausted, state) => (.exhausted, state) := rfl

end Attempt

end Wiring
