import Wiring.Proofs.Populations

/-!
Exports: what a scope sends out, and what becomes of the row that receives it. The receiver holds
what was claimed from it, so a claim that is refused is one that does not agree with the row, and
the claims need not be followed further.
-/

namespace Wiring

namespace ExportSpec

/-- What an export sends out of a row, under the keys outside. -/
def sends (row : Row) : ExportSpec → Row
  | .keyed key exportAs => ((row.get? key).map fun target => (exportAs, target)).toList
  | .all => row

/-- The row holds what the export names. -/
def Finds (row : Row) : ExportSpec → Prop
  | .keyed key _ => key ∈ row.keys
  | .all => True

end ExportSpec

/-- What a scope with the given row sends out in turn. -/
def Scope.outward (scope : Scope) (row : Row) : Row := scope.exports.flatMap (ExportSpec.sends row)

/-- A candidate with its producer, under the key outside. -/
def Candidate.pair (entries : List Entry) (candidate : Candidate) : Key × Delegate :=
  (candidate.exportAs, delegateTo entries candidate.entry)

namespace Draft

/-- The row of a scope, or of the public when no scope is given. -/
def rowOf (draft : Draft) : Option ScopeId → Row
  | some scope => draft.row scope
  | none => draft.publicRow

variable {offered : Pool → Prop} {assembly : Assembly} {draft : Draft}

theorem Agrees.rowOf_eq {after : Draft} (agrees : draft.Agrees after)
    (receiver : Option ScopeId) : after.rowOf receiver = draft.rowOf receiver := by
  cases receiver with
  | some scope => exact agrees.row_eq scope
  | none => exact agrees.publicRow_eq

theorem Sound.rowOf_push (sound : draft.Sound assembly) (entry : Entry)
    (receiver : Option ScopeId) : (draft.push entry).2.rowOf receiver = draft.rowOf receiver := by
  cases receiver with
  | some scope => exact sound.row_push entry scope
  | none => exact sound.publicRow_push entry

/-- What is claimed is held by the receiver of the claim, with the producer of the claim as long as
there is no problem, and everything public is claimed. -/
structure Claims (draft : Draft) : Prop where
  named : ∀ claim entry descriptor, draft.claimant? claim = some (entry, descriptor) →
    ∃ known, draft.entries[entry.index]? = some known
  held : ∀ claim entry descriptor, draft.claimant? claim = some (entry, descriptor) →
    ∃ held, (draft.rowOf claim.1).get? claim.2 = some held ∧
      (draft.diagnostics.isEmpty = true → held.Same (delegateTo draft.entries entry))
  published : ∀ key ∈ draft.publicRow.keys, ∃ entry descriptor,
    draft.claimant? (none, key) = some (entry, descriptor)

/-- The claims of a draft that agrees with another one are those of the other, when it has no fewer
problems. -/
theorem Claims.of_agrees (claims : draft.Claims) {after : Draft} (agrees : draft.Agrees after)
    (claimed : after.claimed = draft.claimed)
    (onward : after.diagnostics.isEmpty = true → draft.diagnostics.isEmpty = true) :
    after.Claims := by
  have same (claim : Claim) : after.claimant? claim = draft.claimant? claim := by
    unfold claimant?
    rw [claimed]
  refine ⟨fun claim id about known => ?_, fun claim id about known => ?_, fun key member => ?_⟩
  · rw [same] at known
    rw [agrees.entries]
    exact claims.named claim id about known
  · rw [same] at known
    rw [agrees.rowOf_eq, agrees.entries]
    obtain ⟨held, holds, leads⟩ := claims.held claim id about known
    exact ⟨held, holds, fun clean => leads (onward clean)⟩
  · rw [same]
    exact claims.published key (agrees.publicRow_eq ▸ member)

/-- The pairs were sent to a receiver in turn, and nothing else happened to the rows. A pair that
does not agree with what the receiver holds is a problem. -/
structure Sends (before after : Draft) (receiver : Option ScopeId) (more : Row) : Prop where
  row : after.rowOf receiver = (before.rowOf receiver).receiveAll more
  others : ∀ other, other ≠ receiver → after.rowOf other = before.rowOf other
  accepted : after.diagnostics.isEmpty = true ↔
    before.diagnostics.isEmpty = true ∧ (before.rowOf receiver).Agreeing more

theorem Sends.refl (draft : Draft) (receiver : Option ScopeId) : draft.Sends draft receiver [] where
  row := rfl
  others _ _ := rfl
  accepted := by simp [Row.Agreeing]

theorem Sends.trans {first second third : Draft} {receiver : Option ScopeId} {more rest : Row}
    (sends : first.Sends second receiver more) (onward : second.Sends third receiver rest) :
    first.Sends third receiver (more ++ rest) where
  row := by rw [onward.row, sends.row, Row.receiveAll_append]
  others other different := (onward.others other different).trans (sends.others other different)
  accepted := by rw [onward.accepted, sends.accepted, sends.row, Row.agreeing_append, and_assoc]

/-- A pair was added for a receiver, unless it held the key of the pair already, which is a
problem. -/
structure Delivers (before after : Draft) (receiver : Option ScopeId) (pair : Key × Delegate) :
    Prop where
  row : after.rowOf receiver = (before.rowOf receiver).receive pair
  others : ∀ other, other ≠ receiver → after.rowOf other = before.rowOf other
  accepted : after.diagnostics.isEmpty = true ↔
    before.diagnostics.isEmpty = true ∧ pair.1 ∉ (before.rowOf receiver).keys
  claimed : after.claimed = before.claimed

/-- A new delegate is offered to the public. -/
theorem Sound.delivers_publish (sound : draft.Sound assembly) (scopes : List Scope) (key : Key)
    (target : Delegate) (home : ScopeId) (source : String) :
    draft.Delivers
      ((draft.push (.ofDelegate key target home source)).2.publish scopes key
        (draft.push (.ofDelegate key target home source)).1) none (key, target) := by
  have pushed := sound.rowOf_push (.ofDelegate key target home source)
  have leads := draft.delegateTo_push key target home source
  have clean : (draft.push (.ofDelegate key target home source)).2.diagnostics =
      draft.diagnostics := rfl
  have claimed : (draft.push (.ofDelegate key target home source)).2.claimed = draft.claimed := rfl
  revert pushed leads clean claimed
  generalize draft.push (.ofDelegate key target home source) = added
  obtain ⟨id, middle⟩ := added
  intro pushed leads clean claimed
  have held : key ∈ (draft.rowOf none).keys ↔ middle.exports.get? key ≠ none := by
    rw [← pushed none, rowOf, publicRow, Registry.keys_row, ← Registry.contains_iff_mem_keys,
      Registry.contains, Option.isSome_iff_ne_none]
  unfold publish Registry.put
  cases free : middle.exports.get? key with
  | some existing =>
    have taken : key ∈ (draft.rowOf none).keys := held.mpr (by simp [free])
    have agrees : middle.Agrees (middle.recordDuplicate scopes ⟨key, existing, id⟩) :=
      ⟨rfl, rfl, rfl⟩
    refine ⟨?_, fun other _ => (agrees.rowOf_eq other).trans (pushed other), ?_, claimed⟩
    · rw [Row.receive_of_mem taken]
      exact (agrees.rowOf_eq none).trans (pushed none)
    · simp [recordDuplicate_isEmpty, taken]
  | none =>
    have absent : key ∉ (draft.rowOf none).keys := fun member => held.mp member free
    refine ⟨?_, fun other different => ?_, ?_, claimed⟩
    · rw [Row.receive_of_notMem absent, ← pushed none]
      simp [rowOf, publicRow, Registry.row, Registry.append, leads]
    · cases other with
      | some scope => exact pushed (some scope)
      | none => exact absurd rfl different
    · have same : middle.diagnostics = draft.diagnostics := clean
      simp [absent, same]

/-- A candidate is delivered to the parent of its scope, or to the public. -/
theorem Sound.delivers_deliver (sound : draft.Sound assembly) {data : Scope}
    (inside : ∀ parent, data.parent = some parent → parent.index < assembly.scopes.length)
    (scope : ScopeId) (candidate : Candidate) :
    draft.Delivers (draft.deliver assembly.scopes data scope candidate) data.parent
      (candidate.exportAs, delegateTo draft.entries candidate.entry) := by
  unfold deliver
  cases upper : data.parent with
  | none => exact sound.delivers_publish assembly.scopes _ _ _ _
  | some parent =>
    have fills := sound.fills_push_register assembly.scopes (inside parent upper)
      candidate.exportAs (delegateTo draft.entries candidate.entry) ((some parent).getD scope)
      ("export from `" ++ data.name ++ "`")
    refine ⟨fills.row, fun other different => ?_, fills.accepted.trans ?_, fills.claimed⟩
    · cases other with
      | some other => exact fills.others other fun same => different (congrArg some same)
      | none => exact fills.publicRow
    · simp [Row.Fresh, rowOf]

theorem claimant?_claim (draft : Draft) (claim other : Claim) (entry : EntryId)
    (descriptor : ExportDescriptor) : (draft.claim claim entry descriptor).claimant? other =
      (draft.claimant? other).or (if claim = other then some (entry, descriptor) else none) := by
  unfold Draft.claim claimant?
  rw [List.find?_append]
  cases found : draft.claimed.find? fun known => known.1 == other with
  | some known => simp
  | none => by_cases same : claim = other <;> simp [same]

/-- A scope holds the producer of a candidate already when its row does. -/
theorem Sound.holdsSame_iff (sound : draft.Sound assembly)
    (wellFormed : assembly.WellFormed offered) {parent : ScopeId} {key : Key} {id : EntryId}
    {entry : Entry} (found : draft.entries[id.index]? = some entry) :
    draft.holdsSame (some parent) key id = true ↔
      ∃ held, (draft.row parent).get? key = some held ∧
        held.Same (delegateTo draft.entries id) := by
  unfold holdsSame row
  rw [Registry.get?_row]
  cases known : (draft.registry parent).get? key with
  | none => simp [known]
  | some existing =>
    obtain ⟨other, place, -⟩ := (sound.holds_registry parent).of_get? known
    simp [known, sound.sameProducer_iff wellFormed place found]

/-- As long as an outward key is not claimed, its receiver holds the producer of a candidate already
when its row does. -/
theorem Claims.holdsSame_iff_of_unclaimed (claims : draft.Claims) (sound : draft.Sound assembly)
    (wellFormed : assembly.WellFormed offered) {receiver : Option ScopeId} {key : Key}
    {id : EntryId} {entry : Entry} (found : draft.entries[id.index]? = some entry)
    (unclaimed : draft.claimant? (receiver, key) = none) :
    draft.holdsSame receiver key id = true ↔
      ∃ held, (draft.rowOf receiver).get? key = some held ∧
        held.Same (delegateTo draft.entries id) := by
  cases receiver with
  | some parent => exact sound.holdsSame_iff wellFormed found
  | none =>
    refine ⟨nofun, ?_⟩
    rintro ⟨held, known, -⟩
    obtain ⟨id, about, claimant⟩ := claims.published _ (Row.mem_keys_of_get? known)
    exact absurd (unclaimed.symm.trans claimant) nofun

/-- A new claim is held when the receiver holds its key with its producer, as long as there is no
problem, and nothing that was held or claimed is lost. -/
theorem Claims.claim (claims : draft.Claims) {after : Draft} {claim : Claim} {id : EntryId}
    {entry : Entry} {descriptor : ExportDescriptor} (grows : draft.entries <+: after.entries)
    (found : draft.entries[id.index]? = some entry)
    (claimed : after.claimed = (draft.claim claim id descriptor).claimed)
    (kept : ∀ receiver key target, (draft.rowOf receiver).get? key = some target →
      (after.rowOf receiver).get? key = some target)
    (onward : after.diagnostics.isEmpty = true → draft.diagnostics.isEmpty = true)
    (held : ∃ held, (after.rowOf claim.1).get? claim.2 = some held ∧
      (after.diagnostics.isEmpty = true → held.Same (delegateTo draft.entries id)))
    (published : ∀ key ∈ after.publicRow.keys, key ∈ draft.publicRow.keys ∨ (none, key) = claim) :
    after.Claims := by
  have known (other : Claim) : after.claimant? other =
      (draft.claimant? other).or (if claim = other then some (id, descriptor) else none) := by
    rw [← claimant?_claim]
    unfold claimant?
    rw [claimed]
  have place {id : EntryId} {entry : Entry} (found : draft.entries[id.index]? = some entry) :
      after.entries[id.index]? = some entry :=
    getElem?_of_grown grows found
  have cases_of {other : Claim} {taken : EntryId} {about : ExportDescriptor}
      (claimant : after.claimant? other = some (taken, about)) :
      draft.claimant? other = some (taken, about) ∨ claim = other ∧ taken = id := by
    rw [known] at claimant
    cases before : draft.claimant? other with
    | some pair => exact .inl (by simpa [before] using claimant)
    | none =>
      rw [before, Option.none_or] at claimant
      split at claimant
      · exact .inr ⟨‹_›, (Prod.mk.inj (Option.some.inj claimant)).1.symm⟩
      · cases claimant
  refine ⟨fun other taken about claimant => ?_, fun other taken about claimant => ?_,
    fun key member => ?_⟩
  · rcases cases_of claimant with before | ⟨-, rfl⟩
    · obtain ⟨data, there⟩ := claims.named other taken about before
      exact ⟨data, place there⟩
    · exact ⟨entry, place found⟩
  · rcases cases_of claimant with before | ⟨rfl, rfl⟩
    · obtain ⟨data, there⟩ := claims.named other taken about before
      obtain ⟨target, holds, same⟩ := claims.held other taken about before
      refine ⟨target, kept _ _ _ holds, fun clean => ?_⟩
      rw [Registry.delegateTo_of_grown grows there]
      exact same (onward clean)
    · obtain ⟨target, holds, same⟩ := held
      refine ⟨target, holds, fun clean => ?_⟩
      rw [Registry.delegateTo_of_grown grows found]
      exact same clean
  · rw [known]
    rcases published key member with before | rfl
    · obtain ⟨taken, about, claimant⟩ := claims.published key before
      exact ⟨taken, about, by rw [claimant]; rfl⟩
    · cases draft.claimant? (none, key) with
      | some pair => exact ⟨pair.1, pair.2, rfl⟩
      | none => exact ⟨id, descriptor, by simp⟩

theorem agreeing_singleton {row : Row} {pair : Key × Delegate} : row.Agreeing [pair] ↔
    ∀ held, row.get? pair.1 = some held → held.Same pair.2 := by
  simp [Row.Agreeing]

/-- A candidate whose outward key is claimed already changes nothing, and is a problem when the
claim is for another producer. -/
theorem Claims.send_claimed (claims : draft.Claims) (sound : draft.Sound assembly)
    (wellFormed : assembly.WellFormed offered) (scopes : List Scope) {data : Scope}
    (scope : ScopeId) {candidate : Candidate} {entry : Entry}
    (found : draft.entries[candidate.entry.index]? = some entry) {claimed : EntryId}
    {existing : ExportDescriptor}
    (claimant : draft.claimant? (data.parent, candidate.exportAs) = some (claimed, existing)) :
    draft.Sends (draft.send scopes data scope candidate) data.parent
        [candidate.pair draft.entries] ∧ (draft.send scopes data scope candidate).Claims := by
  obtain ⟨known, place⟩ := claims.named _ _ _ claimant
  obtain ⟨target, holds, same⟩ := claims.held _ _ _ claimant
  have unchanged : (draft.rowOf data.parent).receive (candidate.pair draft.entries) =
      draft.rowOf data.parent := Row.receive_of_mem (Row.mem_keys_of_get? holds)
  have agree_iff := sound.sameProducer_iff wellFormed place found
  unfold Draft.send
  simp only [claimant]
  by_cases agrees : sameProducer draft.entries claimed candidate.entry = true
  · rw [if_pos agrees]
    refine ⟨⟨unchanged.symm, fun _ _ => rfl, ?_⟩, claims⟩
    rw [agreeing_singleton]
    refine ⟨fun clean => ⟨clean, fun held known_held => ?_⟩, And.left⟩
    obtain rfl := Option.some.inj (holds.symm.trans known_held)
    exact (same clean).trans (agree_iff.mp agrees)
  · rw [if_neg agrees]
    have refused := Diagnostics.recordDuplicateExport_isEmpty draft.diagnostics
      candidate.exportAs existing ⟨candidate.key, candidate.exportAs, data.name,
        some (producer draft.entries candidate.entry)⟩
    refine ⟨⟨unchanged.symm, fun _ _ => rfl, ?_⟩,
      claims.of_agrees ⟨rfl, rfl, rfl⟩ rfl fun clean => by simp [refused] at clean⟩
    rw [agreeing_singleton, refused]
    refine ⟨nofun, fun fits => (agrees (agree_iff.mpr ?_)).elim⟩
    exact (same fits.1).symm.trans (fits.2 target holds)

theorem agrees_claim (draft : Draft) (claim : Claim) (id : EntryId)
    (descriptor : ExportDescriptor) : draft.Agrees (draft.claim claim id descriptor) :=
  ⟨rfl, rfl, rfl⟩

/-- A claim alone sends a candidate whose producer the receiver holds already. -/
theorem Claims.claim_held (claims : draft.Claims) {receiver : Option ScopeId}
    {candidate : Candidate} {entry : Entry} {held : Delegate} (descriptor : ExportDescriptor)
    (found : draft.entries[candidate.entry.index]? = some entry)
    (known : (draft.rowOf receiver).get? candidate.exportAs = some held)
    (same : held.Same (delegateTo draft.entries candidate.entry)) :
    draft.Sends (draft.claim (receiver, candidate.exportAs) candidate.entry descriptor) receiver
        [candidate.pair draft.entries] ∧
      (draft.claim (receiver, candidate.exportAs) candidate.entry descriptor).Claims := by
  have agrees := draft.agrees_claim (receiver, candidate.exportAs) candidate.entry descriptor
  refine ⟨⟨?_, fun other _ => agrees.rowOf_eq other, ?_⟩, ?_⟩
  · rw [agrees.rowOf_eq, Row.receiveAll_cons, Row.receiveAll_nil,
      Row.receive_of_mem (Row.mem_keys_of_get? known)]
  · rw [agreeing_singleton]
    refine ⟨fun clean => ⟨clean, fun other here => ?_⟩, And.left⟩
    obtain rfl := Option.some.inj (known.symm.trans here)
    exact same
  · refine claims.claim List.prefix_rfl found rfl (fun _ _ _ => ?_) (fun clean => clean)
      ⟨held, ?_, fun _ => same⟩ fun key member => .inl ?_
    · rw [agrees.rowOf_eq]
      exact fun stays => stays
    · rw [agrees.rowOf_eq]
      exact known
    · rwa [← agrees.publicRow_eq]

/-- A claim and a delivery send a candidate, when an agreeing receiver does not hold its key. -/
theorem Claims.claim_delivered (claims : draft.Claims) {after : Draft}
    {receiver : Option ScopeId} {candidate : Candidate} {entry : Entry}
    {descriptor : ExportDescriptor} (found : draft.entries[candidate.entry.index]? = some entry)
    (grows : draft.entries <+: after.entries)
    (delivers : (draft.claim (receiver, candidate.exportAs) candidate.entry descriptor).Delivers
      after receiver (candidate.pair draft.entries))
    (free : (draft.rowOf receiver).Agreeing [candidate.pair draft.entries] →
      candidate.exportAs ∉ (draft.rowOf receiver).keys) :
    draft.Sends after receiver [candidate.pair draft.entries] ∧ after.Claims := by
  have agrees := draft.agrees_claim (receiver, candidate.exportAs) candidate.entry descriptor
  have row : after.rowOf receiver =
      (draft.rowOf receiver).receive (candidate.pair draft.entries) := by
    rw [← agrees.rowOf_eq]
    exact delivers.row
  have others (other : Option ScopeId) (different : other ≠ receiver) :
      after.rowOf other = draft.rowOf other :=
    (delivers.others other different).trans (agrees.rowOf_eq other)
  have accepted : after.diagnostics.isEmpty = true ↔ draft.diagnostics.isEmpty = true ∧
      candidate.exportAs ∉ (draft.rowOf receiver).keys := by
    rw [← agrees.rowOf_eq]
    exact delivers.accepted
  refine ⟨⟨row, others, ?_⟩, ?_⟩
  · rw [accepted]
    refine and_congr_right fun _ => ⟨fun absent => ?_, free⟩
    rw [agreeing_singleton]
    exact fun held known => absurd (Row.mem_keys_of_get? known) absent
  · refine claims.claim grows found delivers.claimed (fun other key target known => ?_)
      (fun clean => (accepted.mp clean).1) ?_ fun key member => ?_
    · by_cases same : other = receiver
      · rw [same] at known ⊢
        rw [row, Row.get?_receive, known]
        rfl
      · rwa [others other same]
    · rw [row, Row.get?_receive]
      cases known : (draft.rowOf receiver).get? candidate.exportAs with
      | some held =>
        exact ⟨held, rfl, fun clean =>
          absurd (Row.mem_keys_of_get? known) (accepted.mp clean).2⟩
      | none => exact ⟨_, by simp [Row.get?, Candidate.pair], fun _ => Delegate.Same.refl _⟩
    · cases receiver with
      | none =>
        have receives : after.publicRow = draft.publicRow.receive
            (candidate.pair draft.entries) := row
        rw [receives, Row.mem_keys_receive] at member
        refine member.imp_right fun here => ?_
        rw [here]
        rfl
      | some scope =>
        have unchanged : after.publicRow = draft.publicRow :=
          others none (Option.some_ne_none scope).symm
        rw [unchanged] at member
        exact .inl member

/-- A candidate whose outward key is not claimed yet is received, unless the receiver holds its
producer under the key. -/
theorem Claims.send_unclaimed (claims : draft.Claims) (sound : draft.Sound assembly)
    (wellFormed : assembly.WellFormed offered) {data : Scope}
    (inside : ∀ parent, data.parent = some parent → parent.index < assembly.scopes.length)
    (scope : ScopeId) {candidate : Candidate} (fits : candidate.Fits draft.entries)
    (unclaimed : draft.claimant? (data.parent, candidate.exportAs) = none) :
    draft.Sends (draft.send assembly.scopes data scope candidate) data.parent
        [candidate.pair draft.entries] ∧
      (draft.send assembly.scopes data scope candidate).Claims := by
  obtain ⟨entry, found, -⟩ := id fits
  unfold Draft.send
  simp only [unclaimed]
  generalize (ExportDescriptor.mk candidate.key candidate.exportAs data.name
    (some (producer draft.entries candidate.entry))) = descriptor
  have held_iff := claims.holdsSame_iff_of_unclaimed sound wellFormed found unclaimed
  by_cases holds : (draft.claim (data.parent, candidate.exportAs) candidate.entry
      descriptor).holdsSame data.parent candidate.exportAs candidate.entry = true
  · rw [if_pos holds]
    obtain ⟨held, known, same⟩ := held_iff.mp holds
    exact claims.claim_held descriptor found known same
  · rw [if_neg holds]
    have free : (draft.rowOf data.parent).Agreeing [candidate.pair draft.entries] →
        candidate.exportAs ∉ (draft.rowOf data.parent).keys := by
      intro agreeing member
      rw [agreeing_singleton] at agreeing
      obtain ⟨held, known⟩ := Row.exists_of_mem_keys member
      exact holds (held_iff.mpr ⟨held, known, agreeing held known⟩)
    have fine : (draft.claim (data.parent, candidate.exportAs) candidate.entry descriptor).Sound
        assembly := ⟨sound.entries, sound.places, sound.held, sound.exported⟩
    have still : candidate.Fits
        (draft.claim (data.parent, candidate.exportAs) candidate.entry descriptor).entries := fits
    have grows := (evolves_deliver wellFormed data scope still fine).2
    exact claims.claim_delivered found grows.entries
      (fine.delivers_deliver inside scope candidate) free

/-- A candidate that leaves its scope is received unless its key is held already, and it is no
problem when what is held has the same producer. -/
theorem Claims.send (claims : draft.Claims) (sound : draft.Sound assembly)
    (wellFormed : assembly.WellFormed offered) {data : Scope}
    (inside : ∀ parent, data.parent = some parent → parent.index < assembly.scopes.length)
    (scope : ScopeId) {candidate : Candidate} (fits : candidate.Fits draft.entries) :
    draft.Sends (draft.send assembly.scopes data scope candidate) data.parent
        [candidate.pair draft.entries] ∧
      (draft.send assembly.scopes data scope candidate).Claims := by
  cases claimant : draft.claimant? (data.parent, candidate.exportAs) with
  | some pair =>
    obtain ⟨entry, found, -⟩ := fits
    exact claims.send_claimed sound wellFormed assembly.scopes scope found claimant
  | none => exact claims.send_unclaimed sound wellFormed inside scope fits claimant

/-- Candidates that leave a scope in turn. -/
theorem Claims.sendEach (claims : draft.Claims) (sound : draft.Sound assembly)
    (wellFormed : assembly.WellFormed offered) {data : Scope}
    (inside : ∀ parent, data.parent = some parent → parent.index < assembly.scopes.length)
    (scope : ScopeId) {candidates : List Candidate}
    (fits : ∀ candidate ∈ candidates, candidate.Fits draft.entries) :
    draft.Sends (candidates.foldl (Draft.send assembly.scopes data scope) draft) data.parent
        (candidates.map (Candidate.pair draft.entries)) ∧
      (candidates.foldl (Draft.send assembly.scopes data scope) draft).Claims := by
  induction candidates generalizing draft with
  | nil => exact ⟨.refl draft data.parent, claims⟩
  | cons candidate rest ih =>
    have first := fits candidate List.mem_cons_self
    obtain ⟨next, grows⟩ := evolves_send wellFormed data scope first sound
    obtain ⟨sends, still⟩ := claims.send sound wellFormed inside scope first
    have later (other : Candidate) (member : other ∈ rest) : other.Fits draft.entries :=
      fits other (List.mem_cons_of_mem _ member)
    obtain ⟨onward, last⟩ := ih still next fun other member =>
      (later other member).mono grows.entries
    have same : rest.map
        (Candidate.pair (draft.send assembly.scopes data scope candidate).entries) =
        rest.map (Candidate.pair draft.entries) := by
      refine List.map_congr_left fun other member => ?_
      obtain ⟨entry, found, -⟩ := later other member
      rw [Candidate.pair, Candidate.pair, Registry.delegateTo_of_grown grows.entries found]
    rw [same] at onward
    exact ⟨sends.trans onward, last⟩

/-- An export selects what it sends out of the row of its scope, and is a problem when it names a
key that the row does not hold. -/
theorem select_sends (data : Scope) (scope : ScopeId) (selection : List Candidate × Draft)
    (spec : ExportSpec) :
    selection.2.Agrees (select data scope selection spec).2 ∧
      (select data scope selection spec).2.claimed = selection.2.claimed ∧
      ((select data scope selection spec).2.diagnostics.isEmpty = true ↔
        selection.2.diagnostics.isEmpty = true ∧ spec.Finds (selection.2.row scope)) ∧
      (select data scope selection spec).1.map (Candidate.pair selection.2.entries) =
        selection.1.map (Candidate.pair selection.2.entries) ++
          spec.sends (selection.2.row scope) := by
  cases spec with
  | all =>
    refine ⟨⟨rfl, rfl, rfl⟩, rfl, by simp [select, ExportSpec.Finds], ?_⟩
    simp [select, ExportSpec.sends, row, Registry.row, Candidate.pair, Function.comp_def]
  | keyed key exportAs =>
    have found := Registry.get?_row selection.2.entries (selection.2.registry scope) key
    have held : key ∈ (selection.2.row scope).keys ↔
        ((selection.2.row scope).get? key).isSome = true := by
      rw [Option.isSome_iff_ne_none, ne_eq, Row.get?_eq_none, not_not]
    unfold select ExportSpec.Finds ExportSpec.sends
    dsimp only
    rw [held, row, found]
    cases known : (selection.2.registry scope).get? key with
    | some id => exact ⟨⟨rfl, rfl, rfl⟩, rfl, by simp, by simp [Candidate.pair]⟩
    | none =>
      refine ⟨⟨rfl, rfl, rfl⟩, rfl, ?_, by simp⟩
      simp [Diagnostics.recordUnresolvedExport_isEmpty]

/-- The exports of a scope select in turn what goes out. -/
theorem selectEach_sends (data : Scope) (scope : ScopeId) (specs : List ExportSpec)
    (selection : List Candidate × Draft) :
    selection.2.Agrees (specs.foldl (select data scope) selection).2 ∧
      (specs.foldl (select data scope) selection).2.claimed = selection.2.claimed ∧
      ((specs.foldl (select data scope) selection).2.diagnostics.isEmpty = true ↔
        selection.2.diagnostics.isEmpty = true ∧
          ∀ spec ∈ specs, spec.Finds (selection.2.row scope)) ∧
      (specs.foldl (select data scope) selection).1.map (Candidate.pair selection.2.entries) =
        selection.1.map (Candidate.pair selection.2.entries) ++
          specs.flatMap (ExportSpec.sends (selection.2.row scope)) := by
  induction specs generalizing selection with
  | nil => exact ⟨⟨rfl, rfl, rfl⟩, rfl, by simp, by simp⟩
  | cons spec rest ih =>
    obtain ⟨agrees, claimed, clean, picked⟩ := select_sends data scope selection spec
    obtain ⟨onward, kept, cleaner, more⟩ := ih (select data scope selection spec)
    rw [agrees.row_eq] at cleaner more
    rw [agrees.entries, picked] at more
    refine ⟨agrees.trans onward, kept.trans claimed, ?_, ?_⟩
    · rw [List.foldl_cons, cleaner, clean, List.forall_mem_cons, and_assoc]
    · rw [List.foldl_cons, more, List.flatMap_cons, List.append_assoc]

/-- A scope exported what it has to export: the receiver holds it too, no other row changed, and the
problems are exports that find nothing and those that do not agree with what is held. -/
structure Exports (before after : Draft) (data : Scope) (scope : ScopeId) : Prop where
  row : after.rowOf data.parent =
    (before.rowOf data.parent).receiveAll (data.outward (before.row scope))
  others : ∀ other, other ≠ data.parent → after.rowOf other = before.rowOf other
  accepted : after.diagnostics.isEmpty = true ↔ before.diagnostics.isEmpty = true ∧
    (∀ spec ∈ data.exports, spec.Finds (before.row scope)) ∧
      (before.rowOf data.parent).Agreeing (data.outward (before.row scope))

/-- Exports repeat no key. -/
theorem Exports.distinct {before after : Draft} {data : Scope} {scope : ScopeId}
    (exports : before.Exports after data scope)
    (distinct : ∀ receiver, (before.rowOf receiver).keys.Nodup) (receiver : Option ScopeId) :
    (after.rowOf receiver).keys.Nodup := by
  by_cases receives : receiver = data.parent
  · rw [receives, exports.row]
    exact Row.nodup_receiveAll (distinct data.parent)
  · rw [exports.others receiver receives]
    exact distinct receiver

theorem Claims.exportFrom (claims : draft.Claims) (sound : draft.Sound assembly)
    (wellFormed : assembly.WellFormed offered) {scope : ScopeId} {data : Scope}
    (here : assembly.scopes[scope.index]? = some data) :
    draft.Exports (draft.exportFrom assembly.scopes scope) data scope ∧
      (draft.exportFrom assembly.scopes scope).Claims := by
  have inside (parent : ScopeId) (above : data.parent = some parent) :
      parent.index < assembly.scopes.length :=
    (wellFormed.parents scope.index data here parent above).trans
      (List.getElem?_eq_some_iff.mp here).1
  obtain ⟨agrees, claimed, clean, picked⟩ :=
    selectEach_sends data scope data.exports ([], draft)
  unfold Draft.exportFrom
  simp only [here]
  rcases selected : data.exports.foldl (select data scope) ([], draft) with ⟨candidates, middle⟩
  rw [selected] at agrees claimed clean picked
  have proper := (wellFormed.scopes scope.index data here).exports
  obtain ⟨fine, -, fits⟩ := sound.selectEach data scope proper selected
  have still := claims.of_agrees agrees claimed fun accepted => (clean.mp accepted).1
  obtain ⟨sends, last⟩ := still.sendEach fine wellFormed inside scope fits
  have outward : candidates.map (Candidate.pair middle.entries) =
      data.outward (draft.row scope) := by
    rw [agrees.entries]
    exact picked
  rw [outward] at sends
  refine ⟨⟨?_, fun other different => ?_, ?_⟩, last⟩
  · rw [sends.row, agrees.rowOf_eq]
  · rw [sends.others other different, agrees.rowOf_eq]
  · rw [sends.accepted, clean, agrees.rowOf_eq, and_assoc]

end Draft

end Wiring
