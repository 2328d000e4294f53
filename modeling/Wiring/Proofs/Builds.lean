import Wiring.Proofs.Questions
import Wiring.Proofs.Stacking

/-!
A build in its parts: the resolution is announced, the application is compiled step by step, and
the bundles finish. Only the compilation can fail, at the invocation of a constant.
-/

namespace Wiring

/-- Bundles that finish never fail: an error of a factory is an answer to them. -/
def Build.Unfailing {α : Type} (build : Build α) : Prop :=
  ∀ memory, build.Yields memory (fun _ _ => True) (fun _ _ => False) fun _ => True

namespace Build

variable {α β : Type}

theorem Unfailing.bind {first : Build α} {next : α → Build β} (unfailing : first.Unfailing)
    (onward : ∀ value, (next value).Unfailing) : Unfailing (first >>= next) := by
  intro memory
  rw [Attempt.yields_bind]
  exact (unfailing memory).mono (fun value after _ => onward value after)
    (fun _ _ never => never) fun _ _ => trivial

theorem unfailing_pure (value : α) : Unfailing (pure value) := fun _ => trivial

theorem unfailing_change (update : Memory → Memory) :
    Unfailing (Attempt.change update) := fun _ => trivial

theorem unfailing_ask (asking : Asking α) : Unfailing (ask asking) := by
  intro memory
  unfold ask
  rw [Attempt.yields_mapError]
  unfold Attempt.Yields
  rcases asking memory with ⟨ending, after⟩
  cases ending with
  | error error => cases error
  | value value => trivial
  | panic message => trivial
  | exhausted => trivial

end Build

theorem takeSteps_unfailing (applications : List Application) (pool : Pool)
    (steps : List FinishStep) : (takeSteps applications pool steps).Unfailing := by
  induction steps with
  | nil => exact Build.unfailing_pure ()
  | cons step rest ih =>
    cases step with
    | panic message => exact fun _ => trivial
    | ask query =>
      exact (Build.unfailing_ask _).bind fun _ => (Build.unfailing_change _).bind fun _ => ih

theorem Bundle.finishWith_unfailing (applications : List Application) (bundle : Bundle)
    (pool : Pool) : (bundle.finishWith applications pool).Unfailing := by
  unfold Bundle.finishWith
  cases bundle.finish with
  | nothing => exact Build.unfailing_pure ()
  | script label steps =>
    exact (Build.unfailing_change _).bind fun _ => takeSteps_unfailing applications pool steps
  | tracing own =>
    apply (Build.unfailing_ask _).bind
    intro outcome
    cases outcome with
    | error error => exact Build.unfailing_change _
    | ok handle =>
      dsimp only
      split
      · exact Build.unfailing_pure ()
      · exact Build.unfailing_change _

theorem finishEach_unfailing (applications : List Application) (application : Application)
    (installations : List Installation) :
    (finishEach applications application installations).Unfailing := by
  induction installations with
  | nil => exact Build.unfailing_pure ()
  | cons installation rest ih =>
    simp only [finishEach]
    cases application.poolAt? (.scope installation.scope.index) with
    | none => exact ih
    | some pool =>
        exact (installation.bundle.finishWith_unfailing _ pool).bind fun _ => ih

/-- How the bundles finish does not depend on how they did. -/
theorem finishEach_halted (applications : List Application) (application : Application)
    (halt : Option Halt) (installations : List Installation) :
    finishEach applications { application with halt := halt } installations =
      finishEach applications application installations := by
  induction installations with
  | nil => rfl
  | cons installation rest ih =>
    simp only [finishEach, ih]
    rfl

/-- The bundle does not panic when it finishes. -/
def Bundle.Calm (bundle : Bundle) : Prop :=
  ∀ label steps, bundle.finish = .script label steps → ∀ message, .panic message ∉ steps

namespace Discipline

variable {discipline : Discipline} {applications : List Application}
  {gives : Accessor → Instance → Prop}

theorem Serves.respected_takeSteps {pool : Pool}
    (serves : discipline.Serves applications gives pool) {steps : List FinishStep}
    (calm : discipline.breaks ∨ ∀ message, .panic message ∉ steps) :
    discipline.Respected (takeSteps applications pool steps) fun _ => True := by
  induction steps with
  | nil => exact respected_pure trivial
  | cons step rest ih =>
    cases step with
    | panic message =>
      exact respected_panic (calm.resolve_right fun none => none message List.mem_cons_self) message
    | ask query =>
      have others := ih (calm.imp_right fun none message member =>
        none message (List.mem_cons_of_mem _ member))
      apply ((serves.respected_answer query).mapError _).bind
      intro answer _
      exact (respected_change fun memory => memory.like_write _).bind fun _ _ => others

theorem Serves.respected_finishWith {pool : Pool}
    (serves : discipline.Serves applications gives pool) {bundle : Bundle}
    (calm : discipline.breaks ∨ bundle.Calm) :
    discipline.Respected (bundle.finishWith applications pool) fun _ => True := by
  unfold Bundle.finishWith
  cases finish : bundle.finish with
  | nothing => exact respected_pure trivial
  | script label steps =>
    apply (respected_change fun memory => memory.like_write _).bind
    intro _ _
    exact serves.respected_takeSteps (calm.imp_right fun calm => calm label steps finish)
  | tracing own =>
    have asked : discipline.Respected
        (pool.getKeyed applications (Key.of .tracingConfig) .tracingConfig) fun _ => True :=
      serves.respected_withEntry _ fun _ reads => respected_get reads _
    apply (asked.mapError _).bind
    intro outcome _
    cases outcome with
    | error error => exact respected_change fun memory => memory.like_report _
    | ok handle =>
      dsimp only
      split
      · exact respected_pure trivial
      · exact respected_change fun memory => memory.like_report _

/-- Finishing keeps what the pools of the application keep. -/
theorem respected_finishEach {application : Application}
    (serves : ∀ pool ∈ application.pools,
      discipline.Serves (application.joining applications) gives pool)
    {installations : List Installation}
    (calm : discipline.breaks ∨ ∀ installation ∈ installations, installation.bundle.Calm) :
    discipline.Respected (finishEach applications application installations) fun _ => True := by
  induction installations with
  | nil => exact respected_pure trivial
  | cons installation rest ih =>
    have others := ih (calm.imp_right fun calm other member =>
      calm other (List.mem_cons_of_mem _ member))
    simp only [finishEach]
    cases place : application.poolAt? (.scope installation.scope.index) with
    | none => exact others
    | some pool =>
      have finished := (serves pool (List.mem_of_getElem? place)).respected_finishWith
        (calm.imp_right fun calm => calm installation List.mem_cons_self)
      exact finished.bind fun _ _ => others

end Discipline

namespace Assembly

/-- The memory when the resolution of an assembly was announced. -/
def announced (assembly : Assembly) (memory : Memory) : Memory :=
  assembly.survey.events.foldl Memory.report
    (memory.report (.buildStarted assembly.config.name assembly.scopes.length
      assembly.entries.length assembly.installations.length))

theorem like_foldl_report (events : List Event) (memory : Memory) :
    memory.Like (events.foldl Memory.report memory) := by
  induction events generalizing memory with
  | nil => exact ⟨rfl, rfl, rfl⟩
  | cons event rest ih =>
    have further := ih (memory.report event)
    exact ⟨further.lazies, further.history, further.accessors⟩

theorem like_announced (assembly : Assembly) (memory : Memory) :
    memory.Like (assembly.announced memory) := by
  have further := like_foldl_report assembly.survey.events (memory.report (.buildStarted
    assembly.config.name assembly.scopes.length assembly.entries.length
    assembly.installations.length))
  exact ⟨further.lazies, further.history, further.accessors⟩

/-- The application was compiled from the assembly, and this state was left. -/
structure Compiles (assembly : Assembly) (applications : List Application) (memory : Memory)
    (application : Application) (state : Memory × Compiled) : Prop where
  accepted : assembly.survey.accepted = true
  steps : (assembly.blueprint assembly.survey).Steps applications
    (assembly.announced memory, Compiled.empty) state
  length : application.pools.length = assembly.scopes.length
  stacked : Stacked (assembly.survey.registries.zip assembly.scopes) state.2 application.pools
  exports : application.exports.layer.Matches assembly.survey.exports state.2
  alone : application.exports.ancestors = []

variable {offered : Pool → Prop} {assembly : Assembly} {applications : List Application}

theorem yields_forM_report (events : List Event) {memory : Memory} {given : PUnit → Memory → Prop}
    {failed : BuildError → Memory → Prop} {broken : Memory → Prop} :
    Attempt.Yields (events.forM Build.report) memory given failed broken ↔
      given () (events.foldl Memory.report memory) := by
  induction events generalizing memory with
  | nil => exact Iff.rfl
  | cons event rest ih =>
    change Attempt.Yields (Build.report event >>= fun _ => rest.forM Build.report) memory _ _ _ ↔ _
    rw [Attempt.yields_bind]
    exact ih

/-- The registrations of a resolution name entries with their keys. -/
theorem survey_holds (wellFormed : assembly.WellFormed offered) {registry : Registry}
    (origin : registry ∈ assembly.survey.registries ∨ registry = assembly.survey.exports) :
    registry.Holds (assembly.blueprint assembly.survey).entries := by
  have sound := exportedDraft_sound wellFormed
  rw [blueprint_entries]
  rcases origin with member | rfl
  · rw [survey_registries] at member
    exact sound.held registry member
  · rw [survey_exports]
    exact sound.exported

/-- The registrations of a resolution name entries that are there. -/
theorem survey_inside (wellFormed : assembly.WellFormed offered) {registry : Registry}
    (origin : registry ∈ assembly.survey.registries ∨ registry = assembly.survey.exports) :
    registry.Inside (assembly.blueprint assembly.survey) := by
  intro pair member
  obtain ⟨entry, found, -⟩ := survey_holds wellFormed origin pair member
  exact (List.getElem?_eq_some_iff.mp found).1

/-- A resolution has a registry for each scope. -/
theorem survey_length (wellFormed : assembly.WellFormed offered) :
    (assembly.survey.registries.zip assembly.scopes).length = assembly.scopes.length := by
  have length := (exportedDraft_sound wellFormed).length_registries
  rw [← survey_registries] at length
  rw [List.length_zip]
  exact Nat.min_eq_right (Nat.le_of_eq length.symm)

/-- Compilation does not see how the bundles finish. -/
theorem Compiles.halted {memory : Memory} {application : Application} {state : Memory × Compiled}
    (compiles : assembly.Compiles applications memory application state) (halt : Option Halt) :
    assembly.Compiles applications memory { application with halt := halt } state :=
  ⟨compiles.accepted, compiles.steps, compiles.length, compiles.stacked, compiles.exports,
    compiles.alone⟩

/-- How the bundles finish decides what becomes of the application. -/
theorem finish_yields (assembly : Assembly) (applications : List Application)
    (application : Application) (memory : Memory) :
    (assembly.finish applications application).Yields memory
      (fun other after => ∃ halt, other = { application with halt := halt } ∧
        assembly.finish applications other memory = (.value other, after))
      (fun _ _ => False) fun _ => False := by
  have unfailing := finishEach_unfailing applications application assembly.installations memory
  have again (halt : Option Halt) :
      assembly.finish applications { application with halt := halt } memory =
        assembly.finish applications application memory := by
    rw [Assembly.finish, finishEach_halted, Assembly.finish]
  unfold Attempt.Yields at unfailing ⊢
  rcases ends : assembly.finish applications application memory with ⟨ending, last⟩
  unfold finish at ends
  rcases finish : finishEach applications application assembly.installations memory with
    ⟨ended, left⟩
  rw [finish] at ends unfailing
  cases ended with
  | error error => exact unfailing.elim
  | value done => cases ends; exact ⟨_, rfl, by rw [again, Assembly.finish, finish]⟩
  | panic message => cases ends; exact ⟨_, rfl, by rw [again, Assembly.finish, finish]⟩
  | exhausted => cases ends; exact ⟨_, rfl, by rw [again, Assembly.finish, finish]⟩

/-- The bundles of an application have all finished, or they were broken off. -/
theorem finish_cases {application : Application} {memory after : Memory}
    (finish : assembly.finish applications application memory = (.value application, after)) :
    (application.halt = none ∧ ∃ last,
        finishEach applications application assembly.installations memory = (.value (), last) ∧
        after = last.report (.assemblyBuilt assembly.config.name)) ∨
      application.halt ≠ none ∧ ∃ ending,
        finishEach applications application assembly.installations memory = (ending, after) ∧
        ending ≠ .value () := by
  unfold Assembly.finish at finish
  rcases ends : finishEach applications application assembly.installations memory with
    ⟨ending, last⟩
  rw [ends] at finish
  have halted {halt : Option Halt} {left : Memory}
      (pair : ((.value { application with halt := halt } : Ending BuildError Application), left) =
        (.value application, after)) : application.halt = halt ∧ after = left := by
    obtain ⟨same, rfl⟩ := Prod.mk.inj pair
    exact ⟨congrArg Application.halt (Ending.value.inj same).symm, rfl⟩
  cases ending with
  | error error => cases finish
  | value done =>
    obtain ⟨whole, rfl⟩ := halted finish
    exact .inl ⟨whole, last, rfl, rfl⟩
  | panic message =>
    obtain ⟨broken, rfl⟩ := halted finish
    exact .inr ⟨by simp [broken], _, rfl, by simp⟩
  | exhausted =>
    obtain ⟨broken, rfl⟩ := halted finish
    exact .inr ⟨by simp [broken], _, rfl, by simp⟩

/-- A built application comes from bundles that all finished. -/
theorem finishEach_of_finish {application : Application} {memory after : Memory}
    (finish : assembly.finish applications application memory = (.value application, after))
    (whole : application.halt = none) :
    ∃ last, finishEach applications application assembly.installations memory =
        (.value (), last) ∧
      after = last.report (.assemblyBuilt assembly.config.name) := by
  rcases finish_cases finish with ⟨-, finished⟩ | ⟨broken, -⟩
  · exact finished
  · exact absurd whole broken

/-- At most an event is reported after what the bundles did. -/
theorem like_of_finish {application : Application} {memory after : Memory}
    (finish : assembly.finish applications application memory = (.value application, after)) :
    (finishEach applications application assembly.installations memory).2.Like after := by
  rcases finish_cases finish with ⟨-, last, finished, rfl⟩ | ⟨-, ending, finished, -⟩
  · rw [finished]
    exact last.like_report _
  · rw [finished]
    exact ⟨rfl, rfl, rfl⟩

/-- A build gives an application that was compiled and whose bundles finished or were broken off.
Its error is a refused resolution or a constant that fails, and it is broken off in a constant. -/
theorem build_yields (wellFormed : assembly.WellFormed offered) (applications : List Application)
    (memory : Memory) :
    (assembly.build applications).Yields memory
      (fun application after => ∃ state,
        assembly.Compiles applications memory application state ∧
        assembly.finish applications application state.1 = (.value application, after))
      (fun error after =>
        (assembly.survey.accepted = false ∧ error = .invalid assembly.survey.diagnostics ∧
          after = assembly.announced memory) ∨
        (assembly.survey.accepted = true ∧ ∃ state,
          (assembly.blueprint assembly.survey).Fails applications
            (assembly.announced memory, Compiled.empty) error state ∧ after = state.1))
      (fun after => assembly.survey.accepted = true ∧ ∃ state,
        (assembly.blueprint assembly.survey).Breaks applications
          (assembly.announced memory, Compiled.empty) state ∧ after = state.1) := by
  simp only [build, Attempt.yields_bind, Build.report, Attempt.yields_change, yields_forM_report]
  change Attempt.Yields _ (assembly.announced memory) _ _ _
  by_cases accepted : assembly.survey.accepted = true
  · rw [if_pos accepted]
    apply (Attempt.yields_bind _ _).mpr
    obtain ⟨rank, ranked⟩ := blueprint_ranked wellFormed accepted
    have compiles := Assembly.compile_yields ranked applications
      (fun _ member => survey_inside wellFormed (.inl member))
      (survey_inside wellFormed (.inr rfl))
      (assembly.announced memory, Compiled.empty)
    unfold Attempt.Yields at compiles ⊢
    dsimp only
    rcases ends : assembly.compile applications assembly.survey
      (assembly.announced memory, Compiled.empty) with ⟨ending, state⟩
    rw [ends] at compiles
    cases ending with
    | error error => exact .inr ⟨accepted, state, compiles, rfl⟩
    | panic message => exact ⟨accepted, state, compiles, rfl⟩
    | exhausted => exact ⟨accepted, state, compiles, rfl⟩
    | value application =>
      obtain ⟨steps, length, stacked, exports, alone⟩ := compiles
      have built : assembly.Compiles applications memory application state :=
        ⟨accepted, steps, length.trans (survey_length wellFormed), stacked, exports, alone⟩
      refine Attempt.Yields.mono (finish_yields assembly applications application state.1) ?_
        (fun _ _ none => none.elim) fun _ none => none.elim
      rintro _ after ⟨halt, rfl, finish⟩
      exact ⟨state, built.halted halt, finish⟩
  · rw [if_neg accepted]
    exact .inl ⟨by simpa using accepted, rfl, rfl⟩

/-- What is kept when a build is announced and by every invocation of a constant is kept whenever
the build comes to no application. -/
theorem build_keeps (wellFormed : assembly.WellFormed offered) {memory : Memory}
    {kept : Memory → Prop} (announced : kept (assembly.announced memory))
    (invoked : assembly.survey.accepted = true → ∀ {state : Memory × Compiled},
      (assembly.blueprint assembly.survey).Steps applications
        (assembly.announced memory, Compiled.empty) state →
      ∀ {id : EntryId} {entry : Entry} {factory : Factory} {dependencies : List (Key × Accessor)},
        (assembly.blueprint assembly.survey).Prepares .constant state.2 id entry factory
          dependencies →
        kept ((assembly.blueprint assembly.survey).invocation applications id entry factory
          dependencies state.1).2) :
    (assembly.build applications).Yields memory
      (fun application after => ∃ state, assembly.Compiles applications memory application state ∧
        assembly.finish applications application state.1 = (.value application, after))
      (fun _ after => kept after) kept := by
  apply (build_yields wellFormed applications memory).mono
  · exact fun _ _ yielded => yielded
  · intro error after yielded
    rcases yielded with ⟨-, -, rfl⟩ | ⟨accepted, state, fails, rfl⟩
    · exact announced
    · obtain ⟨middle, id, entry, factory, dependencies, cause, steps, prepares, ends, -⟩ := fails
      have left := invoked accepted steps prepares
      rw [ends] at left
      exact left
  · intro after yielded
    obtain ⟨accepted, state, breaks, rfl⟩ := yielded
    obtain ⟨middle, id, entry, factory, dependencies, steps, prepares, ends, -⟩ := breaks
    have left := invoked accepted steps prepares
    rcases ends with ⟨message, ends⟩ | ends
    · rw [ends] at left
      exact left
    · rw [ends] at left
      exact left

end Assembly

end Wiring
