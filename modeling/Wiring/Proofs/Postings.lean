import Wiring.Proofs.Disputes

/-!
What the exports send, followed through the pass. What every receiver holds, what is claimed from it
and what is recorded as a duplicate are determined by what it held before and by what was sent to
it.
-/

namespace Wiring

namespace Row

/-- What one receiver is sent, as any of them sees it. -/
def addressed (more : Row) (receiver other : Option ScopeId) : Row :=
  if other = receiver then more else []

variable {rows : Option ScopeId → Row} {receiver other : Option ScopeId}

@[simp] theorem addressed_self (more : Row) (receiver : Option ScopeId) :
    more.addressed receiver receiver = more := if_pos rfl

theorem addressed_of_ne (more : Row) (different : other ≠ receiver) :
    more.addressed receiver other = [] := if_neg different

theorem addressed_append (more rest : Row) (receiver other : Option ScopeId) :
    (more ++ rest).addressed receiver other =
      more.addressed receiver other ++ rest.addressed receiver other := by
  unfold addressed
  split <;> simp

/-- There is a receiver for which two producers compete for the key. -/
def Disputed (rows : Option ScopeId → Row) (key : Key) : Prop :=
  ∃ receiver, (rows receiver).Disputes key

/-- A pair with a producer that its key has already at the receiver, or with a key that is new
there, starts no dispute. -/
theorem disputed_agreeing (pair : Key × Delegate) (agreeing : pair.1 ∉ (rows receiver).keys ∨
      ∃ known, (pair.1, known) ∈ rows receiver ∧ known.Same pair.2) (key : Key) :
    Disputed (fun other => rows other ++ addressed [pair] receiver other) key ↔
      Disputed rows key := by
  refine exists_congr fun other => ?_
  dsimp only
  by_cases here : other = receiver
  · subst here
    rw [addressed_self]
    exact disputes_append_agreeing agreeing key
  · rw [addressed_of_ne _ here, List.append_nil]

/-- A pair with another producer than its key has at the receiver starts a dispute about its key,
and about no other one. -/
theorem disputed_differing (pair : Key × Delegate) {known : Delegate}
    (held : (pair.1, known) ∈ rows receiver) (different : ¬ known.Same pair.2) (key : Key) :
    Disputed (fun other => rows other ++ addressed [pair] receiver other) key ↔
      pair.1 = key ∨ Disputed rows key := by
  constructor
  · rintro ⟨other, disputes⟩
    by_cases same : pair.1 = key
    · exact .inl same
    · right
      refine ⟨other, ?_⟩
      dsimp only at disputes
      by_cases here : other = receiver
      · subst here
        rw [addressed_self] at disputes
        exact (disputes_append_of_ne (Ne.symm same)).mp disputes
      · rwa [addressed_of_ne _ here, List.append_nil] at disputes
  · rintro (rfl | ⟨other, disputes⟩)
    · refine ⟨receiver, ?_⟩
      dsimp only
      rw [addressed_self]
      exact disputes_append_differing held different
    · exact ⟨other, disputes.append _⟩

end Row

namespace Draft

variable {offered : Pool → Prop} {assembly : Assembly} {start draft : Draft}
  {sent : Option ScopeId → Row}

/-- The draft has come from another one by what was sent to the receivers: they hold it, the first
pair under a key claims it, and duplicates are recorded for the keys that are disputed. -/
structure Posted (start draft : Draft) (sent : Option ScopeId → Row) : Prop where
  rows : ∀ receiver, draft.rowOf receiver = (start.rowOf receiver).receiveAll (sent receiver)
  claimants : ∀ claim : Claim, (sent claim.1).get? claim.2 =
    (draft.claimant? claim).map fun known => delegateTo draft.entries known.1
  records : ∀ key, start.Records draft key ↔
    Row.Disputed (fun receiver => start.rowOf receiver ++ sent receiver) key
  grows : start.entries.length ≤ draft.entries.length

/-- At first nothing was sent. -/
theorem Unsent.posted (unsent : start.Unsent)
    (distinct : ∀ receiver, (start.rowOf receiver).keys.Nodup) :
    start.Posted start fun _ => [] where
  rows _ := rfl
  claimants claim := by
    rw [claimant?, unsent.claimed]
    rfl
  records key := by
    refine ⟨fun recorded => ?_, ?_⟩
    · rcases recorded with changed | changed <;> exact absurd rfl changed
    · rintro ⟨receiver, first, second, member, member', different⟩
      dsimp only at member member'
      rw [List.append_nil] at member member'
      have found := Row.get?_of_mem (distinct receiver) member
      have found' := Row.get?_of_mem (distinct receiver) member'
      obtain rfl := Option.some.inj (found.symm.trans found')
      exact absurd (.refl first) different
  grows := Nat.le_refl _

/-- Steps that change no row, no claim and no duplicate. -/
theorem Posted.of_agrees (posted : start.Posted draft sent) {after : Draft}
    (agrees : draft.Agrees after) (claimed : after.claimed = draft.claimed)
    (quiet : draft.Quiet after) : start.Posted after sent where
  rows receiver := (agrees.rowOf_eq receiver).trans (posted.rows receiver)
  claimants claim := by
    have same : after.claimant? claim = draft.claimant? claim := by
      unfold claimant?
      rw [claimed]
    rw [same, agrees.entries]
    exact posted.claimants claim
  records key := (quiet.records_iff key).trans (posted.records key)
  grows := by
    rw [agrees.entries]
    exact posted.grows

/-- The row of a receiver was there at first or was sent to it. -/
theorem Posted.get?_rowOf (posted : start.Posted draft sent) (receiver : Option ScopeId)
    (key : Key) : (draft.rowOf receiver).get? key =
      ((start.rowOf receiver).get? key).or ((sent receiver).get? key) := by
  rw [posted.rows, Row.get?_receiveAll]

/-- What was sent under a key without dispute is held once, with a producer that all have who
compete for the key. -/
theorem Posted.holds_undisputed (posted : start.Posted draft sent) {receiver : Option ScopeId}
    (distinct : (start.rowOf receiver).keys.Nodup) {key : Key} (among : key ∈ (sent receiver).keys)
    (undisputed : ¬ Row.Disputes (start.rowOf receiver ++ sent receiver) key) :
    (draft.rowOf receiver).keys.count key = 1 ∧
      ∃ target, (draft.rowOf receiver).get? key = some target ∧
        ∀ producer, (key, producer) ∈ start.rowOf receiver ++ sent receiver →
          producer.Same target := by
  have found : (draft.rowOf receiver).get? key =
      Row.get? (start.rowOf receiver ++ sent receiver) key := by
    rw [posted.get?_rowOf, Row.get?_append]
  obtain ⟨target, first⟩ : ∃ target,
      Row.get? (start.rowOf receiver ++ sent receiver) key = some target := by
    obtain ⟨known, held⟩ := Row.exists_of_mem_keys among
    rw [Row.get?_append, held]
    cases (start.rowOf receiver).get? key <;> exact ⟨_, rfl⟩
  refine ⟨List.count_eq_one_of_mem ?_ (Row.mem_keys_of_get? (found.trans first)), target,
    found.trans first, fun producer member => ?_⟩
  · rw [posted.rows]
    exact Row.nodup_receiveAll distinct
  · by_contra different
    exact undisputed ⟨producer, target, member, Row.mem_of_get? first, different⟩

/-- A candidate is recorded as a duplicate when its producer is not the one that its outward key has
at the receiver. -/
theorem Posted.records_send (posted : start.Posted draft sent) (unsent : start.Unsent)
    (claims : draft.Claims) (sound : draft.Sound assembly)
    (wellFormed : assembly.WellFormed offered) (data : Scope)
    (scope : ScopeId) {candidate : Candidate} (fits : candidate.Fits draft.entries) (key : Key) :
    start.Records (draft.send assembly.scopes data scope candidate) key ↔
      Row.Disputed (fun receiver => start.rowOf receiver ++ sent receiver ++
        Row.addressed [candidate.pair draft.entries] data.parent receiver) key := by
  obtain ⟨entry, found, -⟩ := id fits
  have quiet {after : Draft} (quiet : draft.Quiet after)
      (agreeing : candidate.exportAs ∉ (start.rowOf data.parent ++ sent data.parent).keys ∨
        ∃ known, (candidate.exportAs, known) ∈ start.rowOf data.parent ++ sent data.parent ∧
          known.Same (delegateTo draft.entries candidate.entry)) :
      start.Records after key ↔
        Row.Disputed (fun receiver => start.rowOf receiver ++ sent receiver ++
          Row.addressed [candidate.pair draft.entries] data.parent receiver) key := by
    rw [quiet.records_iff, posted.records]
    exact (Row.disputed_agreeing (candidate.pair draft.entries) agreeing key).symm
  have reports {after : Draft} {known : Delegate}
      (reports : draft.Reports after candidate.exportAs)
      (held : (candidate.exportAs, known) ∈ start.rowOf data.parent ++ sent data.parent)
      (different : ¬ known.Same (delegateTo draft.entries candidate.entry)) :
      start.Records after key ↔
        Row.Disputed (fun receiver => start.rowOf receiver ++ sent receiver ++
          Row.addressed [candidate.pair draft.entries] data.parent receiver) key := by
    rw [reports.records_iff unsent posted.grows, posted.records]
    exact (Row.disputed_differing (candidate.pair draft.entries) held different key).symm
  have taken := posted.claimants (data.parent, candidate.exportAs)
  have present := posted.get?_rowOf data.parent candidate.exportAs
  unfold Draft.send
  cases claimant : draft.claimant? (data.parent, candidate.exportAs) with
  | some known =>
    obtain ⟨claimed, existing⟩ := known
    obtain ⟨holder, place⟩ := claims.named _ claimed existing claimant
    rw [claimant] at taken
    have held : (candidate.exportAs, delegateTo draft.entries claimed) ∈
        start.rowOf data.parent ++ sent data.parent :=
      List.mem_append_right _ (Row.mem_of_get? taken)
    have agree_iff := sound.sameProducer_iff wellFormed place found
    dsimp only
    by_cases agrees : sameProducer draft.entries claimed candidate.entry = true
    · rw [if_pos agrees]
      exact quiet ⟨rfl, rfl⟩ (.inr ⟨_, held, agree_iff.mp agrees⟩)
    · rw [if_neg agrees]
      exact reports (reports_recordDuplicateExport draft _ _ _) held
        fun same => agrees (agree_iff.mpr same)
  | none =>
    rw [claimant, Option.map_none] at taken
    rw [taken, Option.or_none] at present
    dsimp only
    generalize (ExportDescriptor.mk candidate.key candidate.exportAs data.name
      (some (producer draft.entries candidate.entry))) = descriptor
    have held_iff := claims.holdsSame_iff_of_unclaimed sound wellFormed found claimant
    have agrees := draft.agrees_claim (data.parent, candidate.exportAs) candidate.entry descriptor
    by_cases holds : (draft.claim (data.parent, candidate.exportAs) candidate.entry
        descriptor).holdsSame data.parent candidate.exportAs candidate.entry = true
    · rw [if_pos holds]
      obtain ⟨held, known, same⟩ := held_iff.mp holds
      refine quiet ⟨rfl, rfl⟩ (.inr ⟨held, List.mem_append_left _ ?_, same⟩)
      exact Row.mem_of_get? (present.symm.trans known)
    · rw [if_neg holds]
      obtain ⟨reported, unreported⟩ := (draft.claim (data.parent, candidate.exportAs)
        candidate.entry descriptor).deliver_reports assembly.scopes data scope candidate
      rw [agrees.rowOf_eq] at reported unreported
      by_cases member : candidate.exportAs ∈ (draft.rowOf data.parent).keys
      · obtain ⟨held, known⟩ := Row.exists_of_mem_keys member
        obtain ⟨exports, providers, recorded⟩ := reported member
        exact reports ⟨exports, providers, recorded⟩
          (List.mem_append_left _ (Row.mem_of_get? (present.symm.trans known)))
          fun same => holds (held_iff.mpr ⟨held, known, same⟩)
      · obtain ⟨exports, providers⟩ := unreported member
        refine quiet ⟨exports, providers⟩ (.inl ?_)
        rw [← Row.get?_eq_none, Row.get?_append, ← present, taken, Option.or_none]
        exact Row.get?_eq_none.mpr member

/-- A candidate is sent to the parent of its scope, or to the public. -/
theorem Posted.send (posted : start.Posted draft sent) (unsent : start.Unsent)
    (claims : draft.Claims) (sound : draft.Sound assembly)
    (wellFormed : assembly.WellFormed offered) {data : Scope}
    (inside : ∀ parent, data.parent = some parent → parent.index < assembly.scopes.length)
    (scope : ScopeId) {candidate : Candidate} (fits : candidate.Fits draft.entries) :
    start.Posted (draft.send assembly.scopes data scope candidate) fun receiver =>
      sent receiver ++ Row.addressed [candidate.pair draft.entries] data.parent receiver := by
  obtain ⟨next, grows⟩ := evolves_send wellFormed data scope fits sound
  obtain ⟨sends, -⟩ := claims.send sound wellFormed inside scope fits
  refine ⟨fun receiver => ?_, fun claim => ?_, fun key => ?_,
    posted.grows.trans grows.entries.length_le⟩
  · by_cases here : receiver = data.parent
    · rw [here, Row.addressed_self, sends.row, posted.rows, Row.receiveAll_append]
    · rw [Row.addressed_of_ne _ here, List.append_nil, sends.others receiver here, posted.rows]
  · obtain ⟨entry, found, -⟩ := fits
    obtain ⟨descriptor, claimants⟩ := draft.claimant?_send assembly.scopes data scope candidate
    rw [claimants, Row.get?_append, posted.claimants]
    cases claimant : draft.claimant? claim with
    | some known =>
      obtain ⟨holder, place⟩ := claims.named _ known.1 known.2 claimant
      rw [Option.map_some, Option.some_or, Option.some_or, Option.map_some,
        Registry.delegateTo_of_grown grows.entries place]
    | none =>
      obtain ⟨receiver, key⟩ := claim
      rw [Option.map_none, Option.none_or, Option.none_or]
      by_cases here : receiver = data.parent
      · subst here
        rw [Row.addressed_self]
        by_cases same : candidate.exportAs = key
        · simp [Row.get?, Candidate.pair, same, Registry.delegateTo_of_grown grows.entries found]
        · simp [Row.get?, Candidate.pair, same]
      · rw [Row.addressed_of_ne _ here, if_neg fun same => here (Prod.mk.inj same).1.symm]
        rfl
  · rw [posted.records_send unsent claims sound wellFormed data scope fits]
    simp only [List.append_assoc]

/-- Candidates are sent one after the other. -/
theorem Posted.sendEach (posted : start.Posted draft sent) (unsent : start.Unsent)
    (claims : draft.Claims) (sound : draft.Sound assembly)
    (wellFormed : assembly.WellFormed offered) {data : Scope}
    (inside : ∀ parent, data.parent = some parent → parent.index < assembly.scopes.length)
    (scope : ScopeId) {candidates : List Candidate}
    (fits : ∀ candidate ∈ candidates, candidate.Fits draft.entries) :
    start.Posted (candidates.foldl (Draft.send assembly.scopes data scope) draft) fun receiver =>
      sent receiver ++ Row.addressed (candidates.map (Candidate.pair draft.entries)) data.parent
        receiver := by
  induction candidates generalizing draft sent with
  | nil =>
    have nothing (receiver : Option ScopeId) :
        sent receiver ++ Row.addressed [] data.parent receiver = sent receiver := by
      simp [Row.addressed]
    simpa only [List.foldl_nil, List.map_nil, nothing] using posted
  | cons candidate rest ih =>
    have first := fits candidate List.mem_cons_self
    obtain ⟨next, grows⟩ := evolves_send wellFormed data scope first sound
    have still := (claims.send sound wellFormed inside scope first).2
    have later (other : Candidate) (member : other ∈ rest) : other.Fits draft.entries :=
      fits other (List.mem_cons_of_mem _ member)
    have onward := ih (posted.send unsent claims sound wellFormed inside scope first) still next
      fun other member => (later other member).mono grows.entries
    have same : rest.map
        (Candidate.pair (draft.send assembly.scopes data scope candidate).entries) =
        rest.map (Candidate.pair draft.entries) := by
      refine List.map_congr_left fun other member => ?_
      obtain ⟨entry, found, -⟩ := later other member
      rw [Candidate.pair, Candidate.pair, Registry.delegateTo_of_grown grows.entries found]
    rw [same] at onward
    simpa only [List.append_assoc, ← Row.addressed_append, List.singleton_append,
      List.map_cons, List.foldl_cons] using onward

/-- To select the candidates of a scope records no duplicate. -/
theorem quiet_selectEach (data : Scope) (scope : ScopeId) (specs : List ExportSpec)
    (selection : List Candidate × Draft) :
    selection.2.Quiet (specs.foldl (select data scope) selection).2 := by
  induction specs generalizing selection with
  | nil => exact ⟨rfl, rfl⟩
  | cons spec rest ih =>
    have step : selection.2.Quiet (select data scope selection spec).2 := by
      unfold select
      cases spec with
      | all => exact ⟨rfl, rfl⟩
      | keyed key exportAs =>
        dsimp only
        cases (selection.2.registry scope).get? key <;> exact ⟨rfl, rfl⟩
    obtain ⟨exports, providers⟩ := ih (select data scope selection spec)
    exact ⟨exports.trans step.exports, providers.trans step.providers⟩

/-- The exports of a scope send what goes out of its row to its parent, or to the public. -/
theorem Posted.exportFrom (posted : start.Posted draft sent) (unsent : start.Unsent)
    (claims : draft.Claims) (sound : draft.Sound assembly)
    (wellFormed : assembly.WellFormed offered) {scope : ScopeId} {data : Scope}
    (here : assembly.scopes[scope.index]? = some data) :
    start.Posted (draft.exportFrom assembly.scopes scope) fun receiver =>
      sent receiver ++ (data.outward (draft.row scope)).addressed data.parent receiver := by
  have inside (parent : ScopeId) (above : data.parent = some parent) :
      parent.index < assembly.scopes.length :=
    (wellFormed.parents scope.index data here parent above).trans
      (List.getElem?_eq_some_iff.mp here).1
  obtain ⟨agrees, claimed, clean, picked⟩ :=
    selectEach_sends data scope data.exports ([], draft)
  have quiet := quiet_selectEach data scope data.exports ([], draft)
  unfold Draft.exportFrom
  simp only [here]
  rcases selected : data.exports.foldl (select data scope) ([], draft) with ⟨candidates, middle⟩
  rw [selected] at agrees claimed clean picked quiet
  have proper := (wellFormed.scopes scope.index data here).exports
  obtain ⟨fine, -, fits⟩ := sound.selectEach data scope proper selected
  have still := claims.of_agrees agrees claimed fun accepted => (clean.mp accepted).1
  have sends := (posted.of_agrees agrees claimed quiet).sendEach unsent still fine wellFormed inside
    scope fits
  have outward : candidates.map (Candidate.pair middle.entries) =
      data.outward (draft.row scope) := by
    rw [agrees.entries]
    exact picked
  rwa [outward] at sends

end Draft

/-- What is recorded under a key of an export that names it when the row does not hold it. -/
def ExportSpec.misses (name : String) (row : Row) (key : Key) : ExportSpec → List ExportDescriptor
  | .keyed named exportAs =>
    if named = key ∧ key ∉ row.keys then [⟨named, exportAs, name, none⟩] else []
  | .all => []

/-- The exports of a scope under a key that its row does not hold. -/
def Scope.misses (scope : Scope) (row : Row) (key : Key) : List ExportDescriptor :=
  scope.exports.flatMap (ExportSpec.misses scope.name row key)

namespace Draft

theorem unresolved_select (data : Scope) (scope : ScopeId) (selection : List Candidate × Draft)
    (spec : ExportSpec) (key : Key) :
    (select data scope selection spec).2.diagnostics.unresolvedExports.get key =
      selection.2.diagnostics.unresolvedExports.get key ++
        spec.misses data.name (selection.2.row scope) key := by
  cases spec with
  | all => exact (List.append_nil _).symm
  | keyed named exportAs =>
    have held : named ∉ (selection.2.row scope).keys ↔
        (selection.2.registry scope).get? named = none := by
      rw [row, ← Row.get?_eq_none, Registry.get?_row, Option.map_eq_none_iff]
    unfold select ExportSpec.misses
    dsimp only
    cases found : (selection.2.registry scope).get? named with
    | some entry =>
      have taken : ¬ (named = key ∧ key ∉ (selection.2.row scope).keys) := by
        rintro ⟨rfl, absent⟩
        rw [held, found] at absent
        cases absent
      rw [if_neg taken, List.append_nil]
    | none =>
      refine (Grouped.get_update _ _ _ _).trans ?_
      have absent := held.mpr found
      by_cases same : named = key
      · subst same
        rw [if_pos rfl, if_pos ⟨rfl, absent⟩]
      · rw [if_neg same, if_neg fun missing => same missing.1, List.append_nil]

/-- A scope records those exports that name a key which its row does not hold. -/
theorem unresolved_exportFrom (draft : Draft) {scopes : List Scope} {scope : ScopeId}
    {data : Scope} (here : scopes[scope.index]? = some data) (key : Key) :
    (draft.exportFrom scopes scope).diagnostics.unresolvedExports.get key =
      draft.diagnostics.unresolvedExports.get key ++ data.misses (draft.row scope) key := by
  have selected (specs : List ExportSpec) (selection : List Candidate × Draft) :
      (specs.foldl (select data scope) selection).2.diagnostics.unresolvedExports.get key =
        selection.2.diagnostics.unresolvedExports.get key ++
          specs.flatMap (ExportSpec.misses data.name (selection.2.row scope) key) := by
    induction specs generalizing selection with
    | nil => exact (List.append_nil _).symm
    | cons spec rest ih =>
      have agrees := (select_sends data scope selection spec).1
      rw [List.foldl_cons, ih, unresolved_select, agrees.row_eq, List.flatMap_cons,
        List.append_assoc]
  unfold exportFrom
  simp only [here, (spares_sendEach _ scopes data scope _).unresolvedExports]
  exact selected data.exports ([], draft)

end Draft

end Wiring
