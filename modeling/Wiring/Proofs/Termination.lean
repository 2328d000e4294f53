import Wiring.Proofs.Outcomes
import Wiring.Proofs.Reaching

/-!
Compiling and reading come to an end. Following delegates and dependencies ends in a resolved
assembly, so the bound on the depth of a compilation is never reached. The accessors that a host
knows do not depend on themselves, and a reading ends when the factories behind it do.
-/

namespace Wiring

open Relation

namespace Attempt

variable {σ ε δ α β : Type}

/-- The attempt never reaches its bound. -/
def Ends (attempt : Attempt σ ε α) : Prop := ∀ state, (attempt state).1 ≠ .exhausted

theorem ends_done (value : α) : Ends (done value : Attempt σ ε α) := nofun

theorem ends_fail (error : ε) : Ends (fail error : Attempt σ ε α) := nofun

theorem ends_panic (message : String) : Ends (panic message : Attempt σ ε α) := nofun

theorem ends_observe (fact : σ → α) : Ends (observe fact : Attempt σ ε α) := nofun

theorem ends_change (update : σ → σ) : Ends (change update : Attempt σ ε Unit) := nofun

theorem ends_ending (attempt : Attempt σ ε α) :
    (attempt.ending : Attempt σ δ (Ending ε α)).Ends := nofun

theorem Ends.andThen {first : Attempt σ ε α} {next : α → Attempt σ ε β} (ends : first.Ends)
    (onward : ∀ value, (next value).Ends) : (first.andThen next).Ends := by
  intro state
  have here := ends state
  unfold Attempt.andThen
  rcases found : first state with ⟨ending, middle⟩
  rw [found] at here
  cases ending with
  | value value => exact onward value middle
  | error error => nofun
  | panic message => nofun
  | exhausted => exact absurd rfl here

theorem Ends.bind {first : Attempt σ ε α} {next : α → Attempt σ ε β} (ends : first.Ends)
    (onward : ∀ value, (next value).Ends) : (first >>= next).Ends :=
  ends.andThen onward

theorem Ends.mapError {attempt : Attempt σ ε α} (ends : attempt.Ends) (adapt : ε → δ) :
    (attempt.mapError adapt).Ends := by
  intro state
  have here := ends state
  unfold Attempt.mapError
  rcases found : attempt state with ⟨ending, after⟩
  rw [found] at here
  cases ending with
  | value value => nofun
  | error error => nofun
  | panic message => nofun
  | exhausted => exact absurd rfl here

theorem Ends.between {attempt : Attempt σ ε α} (ends : attempt.Ends) (before after : σ → σ) :
    (attempt.between before after).Ends :=
  fun state => ends (before state)

theorem Ends.forEach {attempt : α → Attempt σ ε β} (each : ∀ item, (attempt item).Ends)
    (items : List α) : (forEach attempt items).Ends := by
  induction items with
  | nil => exact ends_done []
  | cons item rest ih => exact (each item).andThen fun _ => ih.andThen fun _ => ends_done _

/-- Attempts that agree on every item of a list agree on the list. -/
theorem forEach_congr {attempt other : α → Attempt σ ε β} (items : List α)
    (same : ∀ item ∈ items, attempt item = other item) :
    forEach attempt items = forEach other items := by
  induction items with
  | nil => rfl
  | cons item rest ih =>
    rw [forEach, forEach, same item List.mem_cons_self,
      ih fun later member => same later (List.mem_cons_of_mem _ member)]

end Attempt

namespace Blueprint

variable {blueprint : Blueprint} {rank : Nat → Nat}

/-- Nothing is needed for ever in a ranked blueprint. -/
theorem Ranked.acc_needs (ranked : blueprint.Ranked rank) (index : Nat) :
    Acc (fun next node => blueprint.Needs node next) index := by
  have below : ∀ bound index, rank index < bound →
      Acc (fun next node => blueprint.Needs node next) index := by
    intro bound
    induction bound with
    | zero => intro index low; omega
    | succ bound ih =>
      intro index low
      refine .intro index fun next needs => ih next ?_
      have lower := (ranked.needs index next needs).2
      omega
  exact below (rank index + 1) index (Nat.lt_succ_self _)

/-- Beyond its rank an entry is compiled in the same way at every depth. -/
theorem Ranked.accessor_eq (ranked : blueprint.Ranked rank) (applications : List Application)
    {depth other : Nat} {id : EntryId} (inside : id.index < blueprint.entries.length)
    (deep : rank id.index < depth) (further : rank id.index < other) :
    blueprint.accessor applications depth id = blueprint.accessor applications other id := by
  induction depth generalizing other id with
  | zero => omega
  | succ depth ih =>
    obtain ⟨other, rfl⟩ : ∃ less, other = less + 1 := ⟨other - 1, by omega⟩
    -- What the entry needs has a lower rank.
    have needed {next : EntryId} (needs : blueprint.Needs id.index next.index) :
        blueprint.accessor applications depth next =
          blueprint.accessor applications other next := by
      obtain ⟨within, lower⟩ := ranked.needs _ _ needs
      exact ih within (by omega) (by omega)
    have found := List.getElem?_eq_getElem inside
    generalize blueprint.entries[id.index] = entry at found
    unfold accessor
    simp only [found]
    cases origin : entry.origin with
    | given handle => rfl
    | delegate target =>
      cases target with
      | foreign imported => rfl
      | entry target =>
        dsimp only
        rw [needed (.target found origin)]
    | made factory =>
      dsimp only
      have linked := Attempt.forEach_congr (blueprint.linked id entry) fun link member =>
        congrArg (fun compiling : Compiling Accessor => do
          let accessor ← compiling
          return (link.1, accessor)) (needed (.link found origin member))
      rw [linked]

end Blueprint

namespace Host

/-- Among the accessors that the host knows, one with the first identity holds one with the second
as a dependency. -/
def Links (host : Host) (outer inner : AccessorId) : Prop :=
  ∃ accessor, host.Knows accessor ∧ accessor.id = outer ∧
    ∃ dependency ∈ accessor.dependencies, dependency.2.id = inner

variable {host : Host}

/-- Whatever a known accessor depends on, however far away, is a smaller accessor. -/
theorem Sound.exists_smaller (sound : host.Sound) {outer inner : AccessorId}
    (path : TransGen host.Links outer inner) :
    ∃ accessor smaller, host.Knows accessor ∧ accessor.id = outer ∧ host.Knows smaller ∧
      smaller.id = inner ∧ sizeOf smaller < sizeOf accessor := by
  induction path with
  | single links =>
    obtain ⟨accessor, knows, rfl, dependency, member, rfl⟩ := links
    exact ⟨accessor, dependency.2, knows, rfl, host.closed.dependencies _ knows _ member, rfl,
      Accessor.sizeOf_dependency member⟩
  | tail _ links ih =>
    obtain ⟨accessor, middle, knows, first, among, here, smaller⟩ := ih
    obtain ⟨other, other_knows, same, dependency, member, rfl⟩ := links
    obtain rfl := sound.arena.unique middle other among other_knows (here.trans same.symm)
    exact ⟨accessor, dependency.2, knows, first, host.closed.dependencies _ among _ member, rfl,
      (Accessor.sizeOf_dependency member).trans smaller⟩

/-- No accessor depends on itself. -/
theorem Sound.acyclic (sound : host.Sound) (id : AccessorId) : ¬ TransGen host.Links id id := by
  intro path
  obtain ⟨accessor, smaller, knows, first, among, last, less⟩ := sound.exists_smaller path
  obtain rfl := sound.arena.unique accessor smaller knows among (first.trans last.symm)
  exact absurd less (Nat.lt_irrefl _)

end Host

/-- Each call of a factory behind the accessor comes to an end. -/
def Accessor.FactoriesEnd (accessor : Accessor) (surroundings : Surroundings) : Prop :=
  ∀ inner, accessor.Within inner → ∀ producer, inner.producer? = some producer →
    ∀ call handed, ((producer.behaviour call ⟨producer.key, handed⟩).run surroundings).Ends

section

variable {surroundings : Surroundings}

theorem Producer.call_ends {producer : Producer} (values : List (Key × Instance))
    (ends : ∀ call, ((producer.behaviour call ⟨producer.key, values⟩).run surroundings).Ends) :
    (producer.call surroundings values).Ends := by
  refine (Attempt.ends_change _).bind fun _ => (Attempt.ends_observe _).bind fun call =>
    (ends call).bind fun handle => ?_
  split
  · exact Attempt.ends_done handle
  · exact Attempt.ends_fail _

theorem Accessor.readEach_ends {dependencies : List (Key × Accessor)} (owner : Key)
    (each : ∀ dependency ∈ dependencies, (dependency.2.read surroundings).Ends) :
    (Accessor.readEach surroundings owner dependencies).Ends := by
  induction dependencies with
  | nil => exact Attempt.ends_done []
  | cons dependency rest ih =>
    obtain ⟨key, accessor⟩ := dependency
    have first : (Accessor.readDependency surroundings owner (key, accessor)).Ends :=
      ((each _ List.mem_cons_self).mapError _).andThen fun handle => Attempt.ends_done (key, handle)
    have others := ih fun other member => each other (List.mem_cons_of_mem _ member)
    exact first.andThen fun _ => others.andThen fun _ => Attempt.ends_done _

/-- An invocation ends when the readings of its dependencies and the calls of its factory do. -/
theorem Producer.invoke_ends {producer : Producer} {dependencies : List (Key × Accessor)}
    (each : ∀ dependency ∈ dependencies, (dependency.2.read surroundings).Ends)
    (ends : ∀ call handed,
      ((producer.behaviour call ⟨producer.key, handed⟩).run surroundings).Ends) :
    (producer.invoke surroundings dependencies).Ends :=
  ((Accessor.readEach_ends producer.key each).andThen fun values =>
    Producer.call_ends values fun call => ends call values).between _ _

theorem recollect_ends {id : AccessorId} {key : Key} {invocation : Evaluation Instance}
    (ends : invocation.Ends) : (recollect id key invocation).Ends := by
  intro memory
  have given (outcome : Except ConstructionError Instance) :
      Ending.ofExcept outcome ≠ .exhausted := by
    cases outcome <;> nofun
  unfold recollect
  cases (memory.lazies id).outcome with
  | some outcome => exact given outcome
  | none =>
    dsimp only
    split
    · have here := ends (memory.update id fun cell => cell.take.mark .computing)
      unfold settle Attempt.unwinding
      dsimp only
      rcases found : invocation _ with ⟨ending, after⟩
      rw [found] at here
      cases ending with
      | value handle => exact given _
      | error error => exact given _
      | panic message => nofun
      | exhausted => exact absurd rfl here
    · nofun

/-- A reading through declared dependencies ends whenever the factories behind it do. -/
theorem Accessor.read_ends {accessor : Accessor} (ends : accessor.FactoriesEnd surroundings) :
    (accessor.read surroundings).Ends := by
  induction accessor using Accessor.induction_on_dependencies with
  | step accessor ih =>
    have each (dependency : Key × Accessor) (member : dependency ∈ accessor.dependencies) :
        (dependency.2.read surroundings).Ends :=
      ih dependency member fun inner within =>
        ends inner ((Accessor.Within.deeper .self member).trans within)
    cases accessor with
    | constant id handle => exact Attempt.ends_done handle
    | lazy id producer dependencies =>
      exact recollect_ends (Producer.invoke_ends each (ends _ .self producer rfl))
    | prototype id producer dependencies =>
      exact Producer.invoke_ends each (ends _ .self producer rfl)

end

end Wiring
