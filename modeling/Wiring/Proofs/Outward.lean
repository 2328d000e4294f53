import Wiring.Proofs.Identity
import Wiring.Proofs.Postings
import Wiring.Stock

/-!
Exports are exact. What every scope sends, out of the row that it has in the end, determines what
its receiver holds, which keys are recorded as duplicates, and what is public; and an export is
recorded as one that finds nothing exactly when its scope does not hold the key.
-/

namespace Wiring

namespace Assembly

/-- The scopes in the order of their turns to export. -/
def turns (assembly : Assembly) : List ScopeId :=
  exportOrder assembly.scopes assembly.scopes.length .root

/-- What the exports of a scope send to a receiver, out of the row that the scope has in the end. -/
def sentBy (assembly : Assembly) (receiver : Option ScopeId) (scope : ScopeId) : Row :=
  (assembly.scopes[scope.index]?.map fun data =>
    (data.outward (assembly.exportedDraft.row scope)).addressed data.parent receiver).getD []

/-- What all exports send to a receiver, in the order of the turns. -/
def sentTo (assembly : Assembly) (receiver : Option ScopeId) : Row :=
  assembly.turns.flatMap (assembly.sentBy receiver)

/-- The exports of a scope under a key that the scope does not hold in the end. -/
def missedBy (assembly : Assembly) (key : Key) (scope : ScopeId) : List ExportDescriptor :=
  (assembly.scopes[scope.index]?.map fun data =>
    data.misses (assembly.exportedDraft.row scope) key).getD []

/-- A candidate is about to be registered for the public: it is the turn of a scope without a
parent, some candidates left the scope already, and the outward key of this one is not claimed. -/
inductive Publishes (assembly : Assembly) : Draft → Candidate → Prop
  | turn {before after : List ScopeId} {scope : ScopeId} {data : Scope}
      {done rest : List Candidate} {candidate : Candidate} {middle : Draft}
      (order : assembly.turns = before ++ scope :: after)
      (here : assembly.scopes[scope.index]? = some data) (top : data.parent = none)
      (selected : data.exports.foldl (Draft.select data scope)
        ([], assembly.exportEach assembly.populatedDraft before) =
          (done ++ candidate :: rest, middle))
      (unclaimed : (done.foldl (Draft.send assembly.scopes data scope) middle).claimant?
        (none, candidate.exportAs) = none) :
      Publishes assembly (done.foldl (Draft.send assembly.scopes data scope) middle) candidate

variable {offered : Pool → Prop} {assembly : Assembly}

/-- No scope has two turns. -/
theorem Ordered.nodup_turns (ordered : assembly.Ordered)
    (wellFormed : assembly.WellFormed offered) : assembly.turns.Nodup := by
  refine (ordered.pairwise_exportOrder wellFormed _ _).imp ?_
  rintro earlier _ apart rfl
  exact apart .top

/-- The pass up to any turn is determined by what was sent until then. -/
theorem Ordered.posted_turns (ordered : assembly.Ordered)
    (wellFormed : assembly.WellFormed offered) {before after : List ScopeId}
    (order : assembly.turns = before ++ after) :
    assembly.populatedDraft.Posted (assembly.exportEach assembly.populatedDraft before)
        (fun receiver => before.flatMap (assembly.sentBy receiver)) ∧
      ∀ key, (assembly.exportEach assembly.populatedDraft before).diagnostics.unresolvedExports.get
        key = before.flatMap (assembly.missedBy key) := by
  have unsent := unsent_populatedDraft wellFormed
  induction before using List.reverseRecOn generalizing after with
  | nil =>
    refine ⟨unsent.posted (nodup_populatedDraft wellFormed), fun key => ?_⟩
    rw [exportEach, List.foldl_nil, unsent.unresolvedExports]
    rfl
  | append_singleton before scope ih =>
    rw [List.append_assoc, List.singleton_append] at order
    obtain ⟨posted, unresolved⟩ := ih order
    have exporting :=
      ((exporting_populatedDraft wellFormed).exportEach wellFormed before).exporting
    have row := ordered.row_turn wellFormed order
    simp only [exportEach, List.foldl_append, List.foldl_cons, List.foldl_nil,
      List.flatMap_append, List.flatMap_cons, List.flatMap_nil, List.append_nil]
    cases here : assembly.scopes[scope.index]? with
    | none =>
      have unchanged (draft : Draft) : draft.exportFrom assembly.scopes scope = draft := by
        simp only [Draft.exportFrom, here]
      simp only [sentBy, missedBy, here, Option.map_none, Option.getD_none, List.append_nil,
        unchanged]
      exact ⟨posted, unresolved⟩
    | some data =>
      have exported := posted.exportFrom unsent exporting.claims exporting.sound wellFormed here
      have missed := Draft.unresolved_exportFrom
        (assembly.exportEach assembly.populatedDraft before) here
      simp only [row, unresolved] at exported missed
      simp only [sentBy, missedBy, here, Option.map_some, Option.getD_some]
      exact ⟨exported, missed⟩

/-- The whole pass is determined by what is sent. -/
theorem Ordered.posted_exportedDraft (ordered : assembly.Ordered)
    (wellFormed : assembly.WellFormed offered) :
    assembly.populatedDraft.Posted assembly.exportedDraft assembly.sentTo ∧
      ∀ key, assembly.exportedDraft.diagnostics.unresolvedExports.get key =
        assembly.turns.flatMap (assembly.missedBy key) :=
  ordered.posted_turns wellFormed (List.append_nil _).symm

/-- What is about to be registered for the public has a key that is free there. -/
theorem Publishes.accepted {draft : Draft} {candidate : Candidate}
    (publishes : assembly.Publishes draft candidate) (wellFormed : assembly.WellFormed offered)
    (id : EntryId) : (draft.exports.put candidate.exportAs id).1 = .ok () := by
  cases publishes with
  | @turn before after scope data done rest _ middle order here top selected unclaimed =>
    have exporting :=
      ((exporting_populatedDraft wellFormed).exportEach wellFormed before).exporting
    obtain ⟨agrees, claimed, clean, -⟩ := Draft.selectEach_sends data scope data.exports
      ([], assembly.exportEach assembly.populatedDraft before)
    rw [selected] at agrees claimed clean
    have proper := (wellFormed.scopes scope.index data here).exports
    obtain ⟨fine, -, fits⟩ := exporting.sound.selectEach data scope proper selected
    have still := exporting.claims.of_agrees agrees claimed fun accepted =>
      (clean.mp accepted).1
    obtain ⟨-, claims⟩ := still.sendEach fine wellFormed (fun parent above =>
      absurd (top.symm.trans above) nofun) scope fun candidate member =>
      fits candidate (List.mem_append_left _ member)
    have free : candidate.exportAs ∉
        (done.foldl (Draft.send assembly.scopes data scope) middle).publicRow.keys := by
      intro member
      obtain ⟨entry, descriptor, claimant⟩ := claims.published _ member
      exact absurd (unclaimed.symm.trans claimant) nofun
    rw [Draft.publicRow, ← Row.get?_eq_none, Registry.get?_row, Option.map_eq_none_iff] at free
    rw [Registry.put, free]

/-- To the public the root sends its exports, and nothing else does. -/
theorem Ordered.sentTo_public (ordered : assembly.Ordered)
    (wellFormed : assembly.WellFormed offered) {root : Scope}
    (here : assembly.scopes[0]? = some root) :
    assembly.sentTo none = root.outward (assembly.exportedDraft.row .root) := by
  obtain ⟨before, order⟩ : ∃ before, assembly.turns = before ++ [.root] := by
    unfold turns
    cases assembly.scopes.length with
    | zero => exact ⟨[], rfl⟩
    | succ depth => exact ⟨_, rfl⟩
  have single := ordered.nodup_turns wellFormed
  rw [order] at single
  have top : root.parent = none := by
    cases above : root.parent with
    | none => rfl
    | some parent => exact absurd (wellFormed.parents 0 root here parent above) (Nat.not_lt_zero _)
  have others : before.flatMap (assembly.sentBy none) = [] := by
    refine List.flatMap_eq_nil_iff.mpr fun scope member => ?_
    unfold sentBy
    cases place : assembly.scopes[scope.index]? with
    | none => rfl
    | some data =>
      refine Row.addressed_of_ne _ fun above => ?_
      have first : scope = .root :=
        congrArg ScopeId.mk (wellFormed.tree.root scope.index data place above.symm)
      exact (List.nodup_append.mp single).2.2 scope member .root (List.mem_singleton_self _) first
  have own : assembly.sentBy none .root = root.outward (assembly.exportedDraft.row .root) := by
    unfold sentBy
    rw [show assembly.scopes[ScopeId.root.index]? = some root from here, Option.map_some,
      Option.getD_some, top, Row.addressed_self]
  rw [sentTo, order, List.flatMap_append, others, List.nil_append, List.flatMap_cons,
    List.flatMap_nil, List.append_nil, own]

end Assembly

/-- The pool of the exports holds exactly the given pairs, of each key the first: the keys are
theirs, and each entry traces back to its producer. -/
structure Application.Shows (application : Application) (assembly : Assembly) (outward : Row) :
    Prop where
  alone : application.exports.ancestors = []
  distinct : (application.exports.layer.entries.map Prod.fst).Nodup
  keys : ∀ key, key ∈ application.exports.layer.entries.map Prod.fst ↔ key ∈ outward.keys
  traces : ∀ item ∈ application.exports.layer.entries, ∃ target,
    outward.get? item.1 = some target ∧ application.Traces assembly item.2 target

namespace Assembly

variable {offered : Pool → Prop} {assembly : Assembly} {applications : List Application}
  {memory : Memory} {application : Application} {state : Memory × Compiled}

/-- What is public in an application is what was sent to the public. -/
theorem Compiles.shows (compiles : assembly.Compiles applications memory application state)
    (describes : assembly.Describes application) (wellFormed : assembly.WellFormed offered)
    (ordered : assembly.Ordered) : application.Shows assembly (assembly.sentTo none) := by
  have posted := (ordered.posted_exportedDraft wellFormed).1
  have received : assembly.exportedDraft.publicRow = Row.receiveAll [] (assembly.sentTo none) := by
    rw [← (populatedDraft_bare wellFormed).1]
    exact posted.rows none
  have distinct : assembly.exportedDraft.publicRow.keys.Nodup := by
    rw [received]
    exact Row.nodup_receiveAll List.nodup_nil
  have place : application.poolFor? none = some application.exports := rfl
  have listed : application.exports.layer.entries.map Prod.fst =
      assembly.exportedDraft.publicRow.keys :=
    map_eq_map_of_forall₂ (compiles.renders_row describes wellFormed place) fun _ _ fits => fits.1
  refine ⟨compiles.alone, by rwa [listed], fun key => ?_, fun item among => ?_⟩
  · rw [listed, received, Row.mem_keys_receiveAll]
    exact or_iff_right List.not_mem_nil
  · obtain ⟨⟨key, id⟩, member, ⟨same, -, known⟩, described⟩ :=
      exists_of_forall₂_right (compiles.exports.renders describes.exports) among
    have held : assembly.survey.registryFor? none = some assembly.survey.exports := rfl
    refine ⟨_, ?_, compiles.traces_delegateTo wellFormed held member known described⟩
    have found : assembly.exportedDraft.publicRow.get? key =
        some (delegateTo assembly.exportedDraft.entries id) := by
      refine Row.get?_of_mem distinct (List.mem_map.mpr ⟨(key, id), ?_, rfl⟩)
      rwa [← survey_exports]
    rw [received, Row.get?_receiveAll] at found
    rw [same, survey_entries, ← found]
    rfl

end Assembly

namespace Host

variable {host : Host} {assembly : Assembly}

/-- Exports are exact. Every scope exports once, after all that stand below it and out of the
registry that it has in the end. A duplicate is recorded for a key if and only if, for some
receiver, the producers that are sent to it under the key and the one that it held before are not
all the same; where they are, the receiver holds the key once, with this producer. The exports that
are recorded as unresolved are those whose key their scope does not hold. To register for the public
never fails, and the exports of an application that was built are those of its root scope. -/
theorem Reachable.exports_exact (reachable : host.Reachable)
    (current : host.assembly = some assembly) :
    (assembly.turns.Nodup ∧
        (∀ scope : ScopeId, scope ∈ assembly.turns ↔ scope.index < assembly.scopes.length) ∧
        ∀ (before : List ScopeId) (scope : ScopeId) (after : List ScopeId),
          assembly.turns = before ++ scope :: after →
          (∀ below, Under assembly.scopes scope below → below ≠ scope → below ∈ before) ∧
          (assembly.exportEach assembly.populatedDraft before).registry scope =
            assembly.exportedDraft.registry scope) ∧
      (∀ key, assembly.populatedDraft.Records assembly.exportedDraft key ↔
        ∃ receiver, Row.Disputes
          (assembly.populatedDraft.rowOf receiver ++ assembly.sentTo receiver) key) ∧
      (∀ receiver key, key ∈ (assembly.sentTo receiver).keys →
        ¬ Row.Disputes (assembly.populatedDraft.rowOf receiver ++ assembly.sentTo receiver) key →
        (assembly.exportedDraft.rowOf receiver).keys.count key = 1 ∧
          ∃ target, (assembly.exportedDraft.rowOf receiver).get? key = some target ∧
            ∀ producer, (key, producer) ∈
              assembly.populatedDraft.rowOf receiver ++ assembly.sentTo receiver →
              producer.Same target) ∧
      (∀ key, assembly.exportedDraft.diagnostics.unresolvedExports.get key =
        assembly.turns.flatMap (assembly.missedBy key)) ∧
      (∀ draft candidate, assembly.Publishes draft candidate →
        ∀ id, (draft.exports.put candidate.exportAs id).1 = .ok ()) ∧
      ∀ (number : Nat) (application : Application) (root : Scope),
        host.build.1 = some (.application number application) →
        assembly.scopes[0]? = some root →
        application.Shows assembly (root.outward (assembly.exportedDraft.row .root)) := by
  have wellFormed := reachable.sound.wellFormed assembly current
  have ordered := reachable.ordered current
  obtain ⟨posted, unresolved⟩ := ordered.posted_exportedDraft wellFormed
  refine ⟨⟨ordered.nodup_turns wellFormed, fun scope => ordered.mem_exportOrder wellFormed,
      fun before scope after order => ordered.turn wellFormed order⟩, posted.records,
    fun receiver key => posted.holds_undisputed (Assembly.nodup_populatedDraft wellFormed receiver),
    unresolved, fun draft candidate publishes => publishes.accepted wellFormed,
    fun number application root built here => ?_⟩
  obtain ⟨state, compiles, describes⟩ := reachable.sound.exists_described current built
  have shows := compiles.shows describes wellFormed ordered
  rwa [ordered.sentTo_public wellFormed here] at shows

/-- A host that is about to build a number in one scope, which exports it, and a second scope with
the given declarations beside it. -/
def beside (declarations : List Declaration) : Host :=
  (Host.new.start (.named "outer")).declareEach
    [.link "source" ⟨"source", .nothing⟩ fun _ =>
        [.provide (.given (.ofParts .u16 7 "") none) [], .exportKey (.of .u16)],
      .link "second" ⟨"second", .nothing⟩ fun _ => declarations,
      .exportKey (.of .u16)]

theorem reachable_beside {declarations : List Declaration}
    (draws : ∀ offered, Declaration.DrawsEach offered declarations) :
    (beside declarations).Reachable :=
  ⟨0, .head (.start _ _) (leads_declareEach _ _ fun offered =>
    ⟨fun _ => ⟨trivial, trivial, trivial⟩, fun _ => draws offered, trivial, trivial⟩)⟩

end Host

namespace Declaration

/-- The number of the first scope, exported once more. -/
def relaying : List Declaration := [.importFrom (.scope ⟨1⟩) [], .exportKey (.of .u16)]

/-- Another number under the same key. -/
def rivalling : List Declaration :=
  [.provide (.given (.ofParts .u16 8 "") none) [], .exportKey (.of .u16)]

end Declaration

/-- The assembly that this host is about to build. -/
def Assembly.beside (declarations : List Declaration) : Assembly :=
  (Host.beside declarations).assembly.getD (.new 0 (.named ""))

theorem Assembly.sentTo_relaying : (beside Declaration.relaying).sentTo (some .root) =
    [(.of .u16, .entry ⟨0⟩), (.of .u16, .entry ⟨0⟩)] := rfl

theorem Assembly.sentTo_rivalling : (beside Declaration.rivalling).sentTo (some .root) =
    [(.of .u16, .entry ⟨0⟩), (.of .u16, .entry ⟨1⟩)] := rfl

/-- Two exports of one number agree, and the number is public; two numbers under one key do not. -/
theorem Host.exports_exact_sample :
    (((Assembly.beside Declaration.relaying).exportedDraft.rowOf (some .root)).keys.count
        (.of .u16) = 1 ∧
      (∃ draft candidate, (Assembly.beside Declaration.relaying).Publishes draft candidate ∧
        ∀ id, (draft.exports.put candidate.exportAs id).1 = .ok ()) ∧
      ∃ application, (beside Declaration.relaying).build.1 = some (.application 0 application) ∧
        .of .u16 ∈ application.exports.layer.entries.map Prod.fst) ∧
    (Assembly.beside Declaration.rivalling).populatedDraft.Records
      (Assembly.beside Declaration.rivalling).exportedDraft (.of .u16) := by
  constructor
  · have current : (beside Declaration.relaying).assembly =
        some (Assembly.beside Declaration.relaying) := rfl
    have reachable : (beside Declaration.relaying).Reachable :=
      reachable_beside fun _ => ⟨nofun, trivial, trivial⟩
    obtain ⟨-, -, holds, -, accepted, shows⟩ := reachable.exports_exact current
    obtain ⟨application, built⟩ :=
      (beside Declaration.relaying).exists_application (by decide +kernel)
    obtain ⟨once, -⟩ := holds (some .root) (.of .u16)
      (by rw [Assembly.sentTo_relaying]; exact List.mem_cons_self) (by
        rw [Assembly.sentTo_relaying]
        rintro ⟨first, second, member, member', different⟩
        change (_, first) ∈ [(_, .entry ⟨0⟩), (_, .entry ⟨0⟩)] at member
        change (_, second) ∈ [(_, .entry ⟨0⟩), (_, .entry ⟨0⟩)] at member'
        obtain rfl : first = .entry ⟨0⟩ := by simpa using member
        obtain rfl : second = .entry ⟨0⟩ := by simpa using member'
        exact different (.refl _))
    have turns : (Assembly.beside Declaration.relaying).turns = [⟨1⟩, ⟨2⟩] ++ .root :: [] := rfl
    have publishes := Assembly.Publishes.turn turns rfl rfl
      (show _ = ([] ++ ⟨.of .u16, .of .u16, ⟨2⟩⟩ :: [], _) from rfl) rfl
    refine ⟨once, ⟨_, _, publishes, accepted _ _ publishes⟩, application, built,
      ((shows 0 application _ built rfl).keys _).mpr ?_⟩
    exact List.mem_cons_self
  · have current : (beside Declaration.rivalling).assembly =
        some (Assembly.beside Declaration.rivalling) := rfl
    have reachable : (beside Declaration.rivalling).Reachable :=
      reachable_beside fun _ => ⟨trivial, trivial, trivial⟩
    obtain ⟨-, records, -⟩ := reachable.exports_exact current
    refine (records _).mpr ⟨some .root, .entry ⟨0⟩, .entry ⟨1⟩, ?_, ?_, nofun⟩
    · exact List.mem_append_right _ (by rw [Assembly.sentTo_rivalling]; exact List.mem_cons_self)
    · refine List.mem_append_right _ ?_
      rw [Assembly.sentTo_rivalling]
      exact List.mem_cons_of_mem _ List.mem_cons_self

end Wiring
