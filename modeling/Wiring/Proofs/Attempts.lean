import Mathlib.Data.List.Forall2
import Wiring.Attempt

/-!
What is known of an attempt from one state: a fact about its value, one about its error, and one
about the state that a panic or a reached bound leaves. Each combinator of attempts says this of
itself in terms of its parts, so that a fact about a compound attempt unfolds into facts about its
steps. An attempt with another behind it stops where one of the two does.
-/

/-- An ending without a value, whatever values there could have been. -/
def Wiring.Ending.withoutValue {ε α : Type} : Ending ε Empty → Ending ε α
  | .value never => never.elim
  | .error reason => .error reason
  | .panic message => .panic message
  | .exhausted => .exhausted

namespace Wiring.Attempt

variable {σ τ ε δ α β : Type}

/-- From the state the attempt ends in a value with the first property, in an error with the
second, or is broken off in a state with the third. -/
def Yields (attempt : Attempt σ ε α) (state : σ) (given : α → σ → Prop) (failed : ε → σ → Prop)
    (broken : σ → Prop) : Prop :=
  match attempt state with
  | (.value value, after) => given value after
  | (.error error, after) => failed error after
  | (.panic _, after) => broken after
  | (.exhausted, after) => broken after

variable {given given' : α → σ → Prop} {failed failed' : ε → σ → Prop} {broken broken' : σ → Prop}
  {state : σ}

/-- Weaker properties hold as well. -/
theorem Yields.mono {attempt : Attempt σ ε α} (yields : attempt.Yields state given failed broken)
    (value : ∀ value after, given value after → given' value after)
    (error : ∀ error after, failed error after → failed' error after)
    (other : ∀ after, broken after → broken' after) :
    attempt.Yields state given' failed' broken' := by
  unfold Yields at yields ⊢
  rcases found : attempt state with ⟨ending, after⟩
  rw [found] at yields
  cases ending with
  | value result => exact value result after yields
  | error reason => exact error reason after yields
  | panic message => exact other after yields
  | exhausted => exact other after yields

/-- The value that an attempt is seen to give has the property. -/
theorem Yields.of_value {attempt : Attempt σ ε α} {value : α} {after : σ}
    (yields : attempt.Yields state given failed broken)
    (ends : attempt state = (.value value, after)) : given value after := by
  rw [Yields, ends] at yields
  exact yields

/-- The state that an attempt leaves has what all endings give it. -/
theorem Yields.after {attempt : Attempt σ ε α} {kept : σ → Prop}
    (yields : attempt.Yields state (fun _ after => kept after) (fun _ after => kept after) kept) :
    kept (attempt state).2 := by
  unfold Yields at yields
  rcases found : attempt state with ⟨ending, after⟩
  rw [found] at yields
  cases ending <;> exact yields

@[simp] theorem yields_done (value : α) :
    (done value : Attempt σ ε α).Yields state given failed broken ↔ given value state := Iff.rfl

@[simp] theorem yields_pure (value : α) :
    (pure value : Attempt σ ε α).Yields state given failed broken ↔ given value state := Iff.rfl

@[simp] theorem yields_fail (error : ε) :
    (fail error : Attempt σ ε α).Yields state given failed broken ↔ failed error state := Iff.rfl

@[simp] theorem yields_panic (message : String) :
    (panic message : Attempt σ ε α).Yields state given failed broken ↔ broken state := Iff.rfl

@[simp] theorem yields_exhaust :
    (exhaust : Attempt σ ε α).Yields state given failed broken ↔ broken state := Iff.rfl

@[simp] theorem yields_observe (fact : σ → α) :
    (observe fact : Attempt σ ε α).Yields state given failed broken ↔
      given (fact state) state := Iff.rfl

@[simp] theorem yields_change (update : σ → σ) {given : Unit → σ → Prop} :
    (change update : Attempt σ ε Unit).Yields state given failed broken ↔
      given () (update state) := Iff.rfl

/-- The next attempt starts where the first one gave its value. -/
@[simp] theorem yields_andThen {given : β → σ → Prop} (first : Attempt σ ε α)
    (next : α → Attempt σ ε β) :
    (andThen first next).Yields state given failed broken ↔
      first.Yields state (fun value after => (next value).Yields after given failed broken)
        failed broken := by
  unfold Yields andThen
  rcases first state with ⟨ending, after⟩
  cases ending <;> rfl

@[simp] theorem yields_bind {given : β → σ → Prop} (first : Attempt σ ε α)
    (next : α → Attempt σ ε β) :
    (first >>= next).Yields state given failed broken ↔
      first.Yields state (fun value after => (next value).Yields after given failed broken)
        failed broken :=
  yields_andThen first next

@[simp] theorem yields_mapError (adapt : ε → δ) (attempt : Attempt σ ε α)
    {failed : δ → σ → Prop} :
    (attempt.mapError adapt).Yields state given failed broken ↔
      attempt.Yields state given (fun error => failed (adapt error)) broken := by
  unfold Yields mapError
  rcases attempt state with ⟨ending, after⟩
  cases ending <;> rfl

@[simp] theorem yields_outcome (attempt : Attempt σ ε α) {given : Except ε α → σ → Prop}
    {failed : δ → σ → Prop} :
    (attempt.outcome : Attempt σ δ (Except ε α)).Yields state given failed broken ↔
      attempt.Yields state (fun value => given (.ok value)) (fun error => given (.error error))
        broken := by
  unfold Yields outcome
  rcases attempt state with ⟨ending, after⟩
  cases ending <;> rfl

/-- The change at the end comes whatever the ending. -/
@[simp] theorem yields_between (before after : σ → σ) (attempt : Attempt σ ε α) :
    (attempt.between before after).Yields state given failed broken ↔
      attempt.Yields (before state) (fun value last => given value (after last))
        (fun error last => failed error (after last)) (fun last => broken (after last)) := by
  unfold Yields between
  rcases attempt (before state) with ⟨ending, last⟩
  cases ending <;> rfl

@[simp] theorem yields_onFirst (attempt : Attempt σ ε α) {state : σ × τ}
    {given : α → σ × τ → Prop} {failed : ε → σ × τ → Prop} {broken : σ × τ → Prop} :
    (attempt.onFirst : Attempt (σ × τ) ε α).Yields state given failed broken ↔
      attempt.Yields state.1 (fun value first => given value (first, state.2))
        (fun error first => failed error (first, state.2))
        (fun first => broken (first, state.2)) := by
  unfold Yields onFirst
  rcases attempt state.1 with ⟨ending, first⟩
  cases ending <;> rfl

/-- Attempts for a list of items: each result has its property when it is given, the property
outlasts what the later attempts do, and a failure comes after results that were given. -/
theorem yields_forEach (leads : σ → σ → Prop) (refl : ∀ state, leads state state)
    (trans : ∀ {first second third}, leads first second → leads second third →
      leads first third)
    (fits : α → β → σ → Prop)
    (outlasts : ∀ {item result first second}, leads first second → fits item result first →
      fits item result second)
    {failed : σ → ε → σ → Prop} {broken : σ → σ → Prop}
    (failsLater : ∀ {first second error last}, leads first second → failed second error last →
      failed first error last)
    (breaksLater : ∀ {first second last}, leads first second → broken second last →
      broken first last)
    {attempt : α → Attempt σ ε β} {items : List α}
    (each : ∀ item ∈ items, ∀ state, (attempt item).Yields state
      (fun result after => leads state after ∧ fits item result after)
      (failed state) (broken state)) (state : σ) :
    (forEach attempt items).Yields state
      (fun results after => leads state after ∧
        List.Forall₂ (fun item result => fits item result after) items results)
      (failed state) (broken state) := by
  induction items generalizing state with
  | nil => exact ⟨refl state, .nil⟩
  | cons item rest ih =>
    simp only [forEach, yields_andThen, yields_done]
    refine (each item List.mem_cons_self state).mono ?_ (fun _ _ => id) (fun _ => id)
    intro result middle yielded
    obtain ⟨led, fit⟩ := yielded
    refine (ih (fun other member => each other (List.mem_cons_of_mem _ member)) middle).mono ?_
      (fun _ _ => failsLater led) (fun _ => breaksLater led)
    intro results last yielded
    obtain ⟨ledOn, fits⟩ := yielded
    exact ⟨trans led ledOn, .cons (outlasts ledOn fit) fits⟩

/-- Whatever value the attempt gives has the property. -/
def Gives (attempt : Attempt σ ε α) (fact : α → Prop) : Prop :=
  ∀ state, attempt.Yields state (fun value _ => fact value) (fun _ _ => True) fun _ => True

/-- What every value has is known of the value that is given. -/
theorem Yields.of_gives {attempt : Attempt σ ε α} {fact : α → Prop}
    (yields : attempt.Yields state given failed broken) (gives : attempt.Gives fact) :
    attempt.Yields state (fun value after => given value after ∧ fact value) failed broken := by
  have fits := gives state
  unfold Yields at yields fits ⊢
  rcases found : attempt state with ⟨ending, after⟩
  rw [found] at yields fits
  cases ending with
  | value value => exact ⟨yields, fits⟩
  | error error => exact yields
  | panic message => exact yields
  | exhausted => exact yields

theorem gives_of_forall (attempt : Attempt σ ε α) {fact : α → Prop} (all : ∀ value, fact value) :
    attempt.Gives fact := by
  intro state
  unfold Yields
  rcases attempt state with ⟨ending, after⟩
  cases ending with
  | value value => exact all value
  | error error => trivial
  | panic message => trivial
  | exhausted => trivial

theorem gives_pure {value : α} {fact : α → Prop} (fits : fact value) :
    (pure value : Attempt σ ε α).Gives fact := fun _ => fits

theorem Gives.bind {first : Attempt σ ε α} {next : α → Attempt σ ε β} {fact : α → Prop}
    {fact' : β → Prop} (gives : first.Gives fact)
    (onward : ∀ value, fact value → (next value).Gives fact') : (first >>= next).Gives fact' := by
  intro state
  rw [yields_bind]
  exact (gives state).mono (fun value after fits => onward value fits after)
    (fun _ _ done => done) fun _ done => done

/-- When each attempt of a list gives what fits its item, so do all of them. -/
theorem gives_forEach {attempt : α → Attempt σ ε β} {fits : α → β → Prop}
    (each : ∀ item, (attempt item).Gives (fits item)) (items : List α) :
    (forEach attempt items).Gives (List.Forall₂ fits items) := by
  induction items with
  | nil => exact fun _ => .nil
  | cons item rest ih =>
    apply (each item).bind
    intro result fit
    apply ih.bind
    intro results all
    exact gives_pure (.cons fit all)

section Endings

variable {first : Attempt σ ε α} {next : α → Attempt σ ε β} {stop : Ending ε Empty} {last : σ}

/-- The second attempt gives its value from the state that the first one leaves with a value. -/
theorem andThen_eq_value_iff {value : β} :
    first.andThen next state = (.value value, last) ↔
      ∃ given middle, first state = (.value given, middle) ∧
        next given middle = (.value value, last) := by
  rw [andThen]
  rcases first state with ⟨ending, middle⟩
  cases ending <;> simp

/-- Two attempts stop where the first one stops, or the second one after a value of the first. -/
theorem andThen_eq_stop_iff :
    first.andThen next state = (stop.withoutValue, last) ↔
      first state = (stop.withoutValue, last) ∨
        ∃ given middle, first state = (.value given, middle) ∧
          next given middle = (stop.withoutValue, last) := by
  rw [andThen]
  rcases first state with ⟨ending, middle⟩
  cases stop with
  | value value => exact value.elim
  | error error => cases ending <;> simp [Ending.withoutValue]
  | panic message => cases ending <;> simp [Ending.withoutValue]
  | exhausted => cases ending <;> simp [Ending.withoutValue]

/-- An attempt that gives a value does not stop. -/
theorem done_ne_stop {value : α} :
    (done value : Attempt σ ε α) state ≠ (stop.withoutValue, last) := by
  cases stop with
  | value value => exact value.elim
  | error error => nofun
  | panic message => nofun
  | exhausted => nofun

end Endings

end Wiring.Attempt
