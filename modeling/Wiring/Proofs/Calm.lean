import Wiring.Proofs.Hosts
import Wiring.Proofs.Outcomes

/-!
Calm factories. A factory is calm when it panics in no call, whatever its questions are answered.
Where every factory behind the built pools is calm, no reading of a calm accessor is broken off by
a panic.
-/

namespace Wiring

namespace Attempt

variable {σ ε δ α β : Type}

/-- The attempt never ends in a panic. -/
def Quiet (attempt : Attempt σ ε α) : Prop :=
  ∀ state message after, attempt state ≠ (.panic message, after)

theorem quiet_done (value : α) : (done value : Attempt σ ε α).Quiet := nofun

theorem quiet_fail (error : ε) : (fail error : Attempt σ ε α).Quiet := nofun

theorem quiet_exhaust : (exhaust : Attempt σ ε α).Quiet := nofun

theorem quiet_observe (fact : σ → α) : (observe fact : Attempt σ ε α).Quiet := nofun

theorem quiet_change (update : σ → σ) : (change update : Attempt σ ε Unit).Quiet := nofun

theorem Quiet.andThen {first : Attempt σ ε α} {next : α → Attempt σ ε β} (quiet : first.Quiet)
    (onward : ∀ value, (next value).Quiet) : (first.andThen next).Quiet := by
  intro state message after ends
  unfold Attempt.andThen at ends
  rcases found : first state with ⟨ending, middle⟩
  rw [found] at ends
  cases ending with
  | value value => exact onward value middle message after ends
  | error error => cases ends
  | panic message => exact quiet state message middle found
  | exhausted => cases ends

theorem Quiet.bind {first : Attempt σ ε α} {next : α → Attempt σ ε β} (quiet : first.Quiet)
    (onward : ∀ value, (next value).Quiet) : (first >>= next).Quiet := quiet.andThen onward

theorem Quiet.mapError {attempt : Attempt σ ε α} (quiet : attempt.Quiet) (adapt : ε → δ) :
    (attempt.mapError adapt).Quiet := by
  intro state message after ends
  unfold Attempt.mapError at ends
  rcases found : attempt state with ⟨ending, middle⟩
  rw [found] at ends
  cases ending with
  | value value => cases ends
  | error error => cases ends
  | panic message => exact quiet state message middle found
  | exhausted => cases ends

theorem Quiet.outcome {attempt : Attempt σ ε α} (quiet : attempt.Quiet) :
    (attempt.outcome : Attempt σ δ (Except ε α)).Quiet := by
  intro state message after ends
  unfold Attempt.outcome at ends
  rcases found : attempt state with ⟨ending, middle⟩
  rw [found] at ends
  cases ending with
  | value value => cases ends
  | error error => cases ends
  | panic message => exact quiet state message middle found
  | exhausted => cases ends

theorem Quiet.between {attempt : Attempt σ ε α} (quiet : attempt.Quiet) (before after : σ → σ) :
    (attempt.between before after).Quiet := by
  intro state message last ends
  unfold Attempt.between at ends
  rcases found : attempt (before state) with ⟨ending, middle⟩
  rw [found] at ends
  cases ends
  exact quiet (before state) message middle found

end Attempt

/-- The behaviour does not panic, whatever it is answered. -/
def Behaviour.Calm {ε : Type} : Behaviour ε → Prop
  | .give _ => True
  | .fail _ => True
  | .panic _ => False
  | .write _ next => Calm next
  | .lookup _ _ next => ∀ answer, Calm (next answer)
  | .peek _ _ next => ∀ view, Calm (next view)

/-- The factory panics in no call, whatever it is handed. -/
def Producer.Calm (producer : Producer) : Prop :=
  ∀ call handed, (producer.behaviour call ⟨producer.key, handed⟩).Calm

/-- No factory behind the accessor panics. -/
def Accessor.Calm (accessor : Accessor) : Prop :=
  ∀ inner, accessor.Within inner → ∀ producer, inner.producer? = some producer → producer.Calm

/-- No factory behind the pools of the host panics. -/
def Host.Calm (host : Host) : Prop :=
  ∀ accessor, host.Knows accessor → ∀ producer, accessor.producer? = some producer →
    producer.Calm

/-- What is visible in the pools of the applications is calm. -/
def CalmPools (applications : List Application) : Prop :=
  ∀ path pool key entry, PoolPath.resolve? path applications = some pool →
    pool.find? key = some entry → entry.accessor.Calm

/-- No question panics. -/
structure Surroundings.Quiet (surroundings : Surroundings) : Prop where
  lookup : ∀ path key, (surroundings.lookup path key).Quiet
  peek : ∀ path key, (surroundings.peek path key).Quiet

/-- The dependencies of a calm accessor are calm. -/
theorem Accessor.Calm.dependency {accessor : Accessor} (calm : accessor.Calm)
    {dependency : Key × Accessor} (member : dependency ∈ accessor.dependencies) :
    dependency.2.Calm :=
  fun inner within => calm inner ((Within.deeper .self member).trans within)

/-- All that a calm host knows is calm. -/
theorem Host.Calm.accessor {host : Host} (calm : host.Calm) {accessor : Accessor}
    (knows : host.Knows accessor) : accessor.Calm :=
  fun inner within => calm inner (within.of_closed host.closed.dependencies knows)

theorem Host.Calm.pools {host : Host} (calm : host.Calm) : CalmPools host.applications :=
  fun _ _ _ _ place found => calm.accessor (knows_of_find? (offers_of_resolve? place) found)

/-- A behaviour stays calm with calm ends in place of its errors. -/
theorem Behaviour.Calm.catchWith {ε δ : Type} {behaviour : Behaviour ε} {handler : ε → Behaviour δ}
    (calm : behaviour.Calm) (ends : ∀ error, (handler error).Calm) :
    (behaviour.catchWith handler).Calm := by
  induction behaviour with
  | give value => trivial
  | fail error => exact ends error
  | panic message => exact calm
  | write note next ih => exact ih calm
  | lookup path key next ih => exact fun answer => ih answer (calm answer)
  | peek path key next ih => exact fun view => ih view (calm view)

/-- A closure that may fail is calm when its function is. -/
theorem Factory.calm_ofFallible {parameters : List ServiceType}
    {function : Nat → List Value → Behaviour Raised}
    (calm : ∀ call values, (function call values).Calm) (call : Nat) (dependencies : Dependencies) :
    ((ofFallible parameters function).behaviour call dependencies).Calm := by
  unfold ofFallible
  dsimp only
  split
  · trivial
  · exact (calm call _).catchWith fun _ => trivial

section

variable {surroundings : Surroundings}

theorem Behaviour.Calm.quiet_run (quiet : surroundings.Quiet)
    {behaviour : Behaviour ConstructionError} (calm : behaviour.Calm) :
    (behaviour.run surroundings).Quiet := by
  induction behaviour with
  | give value =>
    exact (Attempt.quiet_observe _).bind fun _ => (Attempt.quiet_change _).bind fun _ =>
      Attempt.quiet_done _
  | fail error => exact Attempt.quiet_fail error
  | panic message => exact calm.elim
  | write note next ih => exact (Attempt.quiet_change _).bind fun _ => ih calm
  | lookup path key next ih => exact (quiet.lookup path key).bind fun answer => ih answer (calm _)
  | peek path key next ih => exact (quiet.peek path key).bind fun view => ih view (calm _)

theorem Producer.Calm.quiet_call {producer : Producer} (calm : producer.Calm)
    (quiet : surroundings.Quiet) (values : List (Key × Instance)) :
    (producer.call surroundings values).Quiet := by
  refine (Attempt.quiet_change _).bind fun _ => (Attempt.quiet_observe _).bind fun call =>
    ((calm call values).quiet_run quiet).bind fun handle => ?_
  split
  · exact Attempt.quiet_done handle
  · exact Attempt.quiet_fail _

theorem Accessor.quiet_readEach {dependencies : List (Key × Accessor)} (owner : Key)
    (each : ∀ dependency ∈ dependencies, (dependency.2.read surroundings).Quiet) :
    (Accessor.readEach surroundings owner dependencies).Quiet := by
  induction dependencies with
  | nil => exact Attempt.quiet_done []
  | cons dependency rest ih =>
    obtain ⟨key, accessor⟩ := dependency
    have first : (Accessor.readDependency surroundings owner (key, accessor)).Quiet :=
      ((each _ List.mem_cons_self).mapError _).andThen fun handle =>
        Attempt.quiet_done (key, handle)
    have others := ih fun other member => each other (List.mem_cons_of_mem _ member)
    exact first.andThen fun _ => others.andThen fun _ => Attempt.quiet_done _

/-- An invocation of a calm factory is quiet when the readings of its dependencies are. -/
theorem Producer.Calm.quiet_invoke {producer : Producer} (calm : producer.Calm)
    (quiet : surroundings.Quiet) {dependencies : List (Key × Accessor)}
    (each : ∀ dependency ∈ dependencies, (dependency.2.read surroundings).Quiet) :
    (producer.invoke surroundings dependencies).Quiet := by
  have worked := (Accessor.quiet_readEach producer.key each).andThen fun values =>
    calm.quiet_call quiet values
  exact worked.between (fun memory => memory.record (.begun producer.factory))
    fun memory => memory.record (.ended producer.factory)

theorem quiet_recollect {id : AccessorId} {key : Key} {invocation : Evaluation Instance}
    (quiet : invocation.Quiet) : (recollect id key invocation).Quiet := by
  intro memory message after ends
  have given (outcome : Except ConstructionError Instance) (last : Memory) :
      (Ending.ofExcept outcome, last) ≠ (.panic message, after) := by
    cases outcome <;> nofun
  unfold recollect at ends
  cases known : (memory.lazies id).outcome with
  | some outcome =>
    rw [known] at ends
    exact given outcome memory ends
  | none =>
    rw [known] at ends
    dsimp only at ends
    split at ends
    · unfold settle Attempt.unwinding at ends
      dsimp only at ends
      rcases found : invocation _ with ⟨ending, middle⟩
      rw [found] at ends
      cases ending with
      | value handle => exact given _ _ ends
      | error error => exact given _ _ ends
      | panic message => exact quiet _ message middle found
      | exhausted => cases ends
    · cases ends

/-- A reading of a calm accessor is quiet where all questions are. -/
theorem Accessor.Calm.quiet_read {accessor : Accessor} (calm : accessor.Calm)
    (quiet : surroundings.Quiet) : (accessor.read surroundings).Quiet := by
  induction accessor using Accessor.induction_on_dependencies with
  | step accessor ih =>
    have each (dependency : Key × Accessor) (member : dependency ∈ accessor.dependencies) :
        (dependency.2.read surroundings).Quiet := ih dependency member (calm.dependency member)
    cases accessor with
    | constant id handle => exact Attempt.quiet_done handle
    | lazy id producer dependencies =>
      exact quiet_recollect ((calm _ .self producer rfl).quiet_invoke quiet each)
    | prototype id producer dependencies =>
      exact (calm _ .self producer rfl).quiet_invoke quiet each

end

/-- Among calm pools no question panics, at any depth. -/
theorem CalmPools.quiet {applications : List Application} (calm : CalmPools applications)
    (depth : Nat) : (surroundings applications depth).Quiet := by
  induction depth with
  | zero =>
    exact ⟨fun _ _ => Attempt.quiet_exhaust, fun _ _ => Attempt.quiet_observe _⟩
  | succ depth ih =>
    refine ⟨fun path key => ?_, fun _ _ => Attempt.quiet_observe _⟩
    change (lookupIn applications _ path key).Quiet
    unfold lookupIn
    cases place : path.resolve? applications with
    | none => exact Attempt.quiet_done none
    | some pool =>
      dsimp only
      cases found : pool.find? key with
      | none => exact Attempt.quiet_done _
      | some entry =>
        have read := (calm path pool key entry place found).quiet_read ih
        exact (read.mapError _).outcome.andThen fun answer => Attempt.quiet_done (some answer)

end Wiring
