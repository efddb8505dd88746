import Mikaki.Store.Exclusive

/-!
# Exclusive adoption, whatever the callers do

Any number of callers of the calls of this store, over any interleaving of
their reads and batches, with replies that may be lost: at most one caller is
told to start an operation, and its target is its own until it is settled.
-/

namespace Mikaki.WorkStore

open Checks Concurrent Concurrent.Prog Rows Transactions

variable {ι : Type}

/-! ## What every caller keeps -/

/-- The tables, and the batches that were applied to them so far. -/
structure Adoption [Hashes] (d : Db) (l : List (Transactions.Entry ι Db Batch)) : Prop where
  exclusive : Exclusive d
  started : ∀ e ∈ l, ∀ id revision body, e.tx = .dispatch id revision body →
    ∃ o ∈ d.operations, o.operationId = id ∧ o.Begun
  cancelled : ∀ e ∈ l, ∀ id revision body sessionHash, e.tx = .cancelOperation id revision body sessionHash →
    ∃ o ∈ d.operations, o.operationId = id ∧ o.state = .cancelled
  once : l.Pairwise fun e f => ∀ id revision body revision' body',
    e.tx = .dispatch id revision body → f.tx ≠ .dispatch id revision' body'
  ran : ∀ e ∈ l, Exclusive e.before ∧ ∃ d', e.tx.run e.before = some d'

def adoption [Hashes] (ι : Type) : Discipline ι Db Batch where
  inv := Adoption
  sent _ b _ _ := Sent b
  noted _ _ _ _ := False

section
variable [Hashes] {d d' : Db} {l : List (Transactions.Entry ι Db Batch)}

theorem Adoption.step (h : Adoption d l) {i : ι} {b : Batch} (hs : Sent b) (hr : b.run d = some d') :
    Adoption d' (l ++ [⟨i, b, d⟩]) := by
  have hkeys := h.exclusive.keys
  refine ⟨h.exclusive.run hs hr, ?_, ?_, ?_, ?_⟩
  · intro e he id revision body hb
    rcases mem_snoc.mp he with he | rfl
    · obtain ⟨o, ho, hi, hbegun⟩ := h.started e he id revision body hb
      obtain ⟨o', ho', hi', hb', -⟩ := since hkeys hr ho
      exact ⟨o', ho', hi'.trans hi, hb' hbegun⟩
    · cases hb
      obtain ⟨o, ho, hid, -, -, -, -, -, -, -, -, -, -, -, -, rfl⟩ := dispatch_some hkeys.operations hr
      have hm := replace_mem OperationRow.operationId { o with state := .dispatched, revision := o.revision + 1 } ho rfl
      exact ⟨_, hm, hid, by simp [OperationRow.Begun]⟩
  · intro e he id revision body sessionHash hb
    rcases mem_snoc.mp he with he | rfl
    · obtain ⟨o, ho, hi, hc⟩ := h.cancelled e he id revision body sessionHash hb
      obtain ⟨o', ho', hi', -, hc'⟩ := since hkeys hr ho
      exact ⟨o', ho', hi'.trans hi, hc' hc⟩
    · cases hb
      obtain ⟨o, ho, hid, -, -, rfl⟩ := cancelOperation_some hkeys.operations hr
      have hm := replace_mem OperationRow.operationId { o with state := .cancelled, revision := o.revision + 1 } ho rfl
      exact ⟨_, hm, hid, rfl⟩
  · refine List.pairwise_append.mpr ⟨h.once, List.pairwise_singleton _ _, ?_⟩
    intro e he f hf id revision body revision' body' hb hb'
    rw [List.mem_singleton.mp hf] at hb'
    cases hb'
    obtain ⟨o, ho, hi, hbegun⟩ := h.started e he id revision body hb
    obtain ⟨o', ho', hi', -, hp, -⟩ := dispatch_some hkeys.operations hr
    rw [← hkeys.operations.eq ho ho' (hi.trans hi'.symm)] at hp
    exact hbegun.1 hp
  · intro e he
    rcases mem_snoc.mp he with he | rfl
    · exact h.ran e he
    · exact ⟨h.exclusive, d', hr⟩

theorem Adoption.drift (h : Adoption d l) (hd : store.drift d d') : Adoption d' l := by
  have hx := h.exclusive.drift hd
  obtain ⟨around, rfl⟩ := hd
  exact { h with exclusive := hx }

theorem adoption_keeps : Keeps store (adoption ι) := by
  refine ⟨⟨?_, ?_⟩, ?_⟩
  · intro i b d d' l h hs hr _
    rcases hs with hs | hn
    · exact Adoption.step h hs hr
    · exact hn.elim
  · intro d d' l h hd _
    exact Adoption.drift h hd
  · intro i b
    exact .const _

end

/-! ## What the calls read -/

section
variable [Hashes] (i : ι) {α : Type}

/-- The call keeps the discipline, and what it gives when it succeeds meets `A`. -/
abbrev Gives (x : Store α) (A : α → Prop) : Prop :=
  Ensures (world store) (contract store (adoption ι)) i (fun _ => True) x fun a _ => A a

variable {i}

theorem gives_read : Gives i read fun _ => True :=
  (spec_read (.const True) (fun _ => .const True) fun _ _ _ => trivial).post fun _ _ _ _ => trivial

theorem gives_core (x : Except Denied α) : Gives i (core x) fun a => x = .ok a := by
  unfold core
  cases x with
  | ok a => exact .pure fun _ _ _ => rfl
  | error e => exact .throw

theorem gives_first (x : Option α) : Gives i (first x) fun a => x = some a := by
  unfold first
  cases x with
  | some a => exact .pure fun _ _ _ => rfl
  | none => exact .throw

theorem gives_fails (c : Prop) [Decidable c] (e : StoreError) : Gives i (fails c e) fun _ => ¬c :=
  Ensures.fails.post fun _ _ _ h => h.2

theorem gives_pure {A : α → Prop} {a : α} (h : A a) : Gives i (pure a) A := .pure fun _ _ _ => h

theorem gives_owner (sessionHash : String) : Gives i (owner sessionHash) fun _ => True := by
  unfold owner
  refine gives_read.andThen fun d _ => (gives_first _).andThen fun s _ => (gives_first _).andThen fun p _ => ?_
  exact (gives_core _).andThen fun o _ => (gives_core _).andThen fun s _ => gives_pure trivial

theorem gives_account (id : String) : Gives i (account id) fun _ => True := by
  unfold account
  refine gives_read.andThen fun d _ => (gives_first _).andThen fun a _ => (gives_first _).andThen fun p _ => ?_
  exact (gives_core _).andThen fun o _ => gives_pure trivial

theorem gives_target (repository reference : String) : Gives i (target repository reference) fun _ => True := by
  unfold target
  refine gives_read.andThen fun d _ => (gives_first _).andThen fun t _ => ?_
  exact (gives_core _).post fun _ _ _ _ => trivial

theorem gives_request (digest : Digest) : Gives i (request digest) fun r => r.Valid := by
  unfold request
  refine gives_read.andThen fun d _ => (gives_first _).andThen fun row _ => (gives_core _).andThen fun r hr => ?_
  exact (gives_fails _ _).andThen fun _ _ => gives_pure (WorkRequest.restore_valid hr)

theorem gives_grant (id : String) : Gives i (grant id) fun g => g.Valid := by
  unfold grant
  refine gives_read.andThen fun d _ => (gives_first _).andThen fun row _ => (gives_core _).andThen fun g hg => ?_
  exact (gives_fails _ _).andThen fun _ _ => gives_pure (Grant.restore_valid hg)

theorem gives_run (id : String) : Gives i (run id) fun n => n.Valid := by
  unfold run
  refine gives_read.andThen fun d _ => (gives_first _).andThen fun row _ => (gives_core _).andThen fun n hn => ?_
  exact (gives_fails _ _).andThen fun _ _ => gives_pure (Run.restore_valid hn)

theorem gives_approval (id : String) : Gives i (approval id) fun a => a.Valid := by
  unfold approval
  refine gives_read.andThen fun d _ => (gives_first _).andThen fun row _ => (gives_core _).andThen fun a ha => ?_
  exact (gives_fails _ _).andThen fun _ _ => gives_pure (CodeApproval.restore_ok ha).2

theorem gives_producer (id : String) :
    Gives i (producer id) fun p => p.request.Valid ∧ p.grant.Valid ∧ p.run.Valid := by
  unfold producer
  refine (gives_run _).andThen fun n hn => (gives_grant _).andThen fun g hg => (gives_request _).andThen fun r hr => ?_
  exact gives_read.andThen fun _ _ => gives_pure ⟨hr, hg, hn⟩

theorem gives_candidate (digest : Digest) : Gives i (candidate digest) fun c => ∃ r g n, Candidate.Valid r g n c := by
  unfold candidate
  refine gives_read.andThen fun d _ => (gives_first _).andThen fun row _ => gives_read.andThen fun e _ => ?_
  refine (gives_first _).andThen fun reference _ => (gives_producer _).andThen fun p hp => ?_
  refine (gives_core _).andThen fun c hc => (gives_fails _ _).andThen fun _ _ => gives_pure ?_
  have hr := Candidate.restore_ok hc
  exact ⟨p.request, p.grant, p.run, hp.1, hp.2.1, hp.2.2, hr.1, hr.2⟩

theorem gives_candidateContext (digest : Digest) :
    Gives i (candidateContext digest) fun c => ∃ r g n, Candidate.Valid r g n c.candidate := by
  unfold candidateContext
  refine (gives_candidate _).andThen fun c hc => (gives_producer _).andThen fun p _ => ?_
  exact (gives_target _ _).andThen fun t _ => (gives_account _).andThen fun a _ => gives_pure hc

theorem gives_operationRow (id : String) : Gives i (operationRow id) fun _ => True := by
  unfold operationRow
  exact gives_read.andThen fun d _ => gives_pure trivial

theorem gives_operation (id : String) : Gives i (operation id) fun _ => True := by
  unfold operation
  refine (gives_operationRow _).andThen fun row _ => (gives_first _).andThen fun row _ => ?_
  exact (gives_core _).post fun _ _ _ _ => trivial

omit [Hashes] in
theorem restore_ok {row : OperationRow} {id : String} {o : ExternalOperation} (h : row.restore id = .ok o) :
    ExternalOperation.restoreAuthorityRecord row.body row.state row.receipt = .ok o ∧ o.id.text = id := by
  simp only [OperationRow.restore, bind_eq_ok, denyIf_eq_ok, pure_eq_ok, ne_eq, Decidable.not_not] at h
  obtain ⟨p, hp, _, hi, rfl⟩ := h
  exact ⟨hp, hi⟩

/-! ## What the calls send -/

theorem gives_commit {b : Batch} (hs : Sent b) :
    Ensures (world store) (contract store (adoption ι)) i (fun _ => True) (commit b : Store Unit) fun _ s =>
      Applied i b s.log :=
  spec_commit adoption_keeps fun _ _ _ => hs

theorem gives_recoverPrepared (approvalId id body : String) (e : StoreError) :
    Gives i (recoverPrepared approvalId id body e) fun _ => True := by
  unfold recoverPrepared
  refine (gives_operationRow _).andThen fun row _ => ?_
  cases row with
  | some row =>
    by_cases hb : row.body = body
    · simp only [if_pos hb]
      exact (gives_core _).post fun _ _ _ _ => trivial
    · simp only [if_neg hb]
      exact .throw
  | none =>
    refine gives_read.andThen fun d _ => ?_
    by_cases ho : ∃ o ∈ d.operations, o.approvalId = approvalId
    · simp only [if_pos ho]
      exact .throw
    · simp only [if_neg ho]
      exact .throw

theorem gives_prepareNew (now : Nat) (approvalId id : String) : Gives i (prepareNew now approvalId id) fun _ => True := by
  unfold prepareNew
  refine (gives_approval _).andThen fun a ha => (gives_candidateContext _).andThen fun c hc => ?_
  refine (gives_core _).andThen fun o ho => (gives_core _).andThen fun body hb => ?_
  obtain ⟨r, g, n, hc⟩ := hc
  obtain ⟨hcheck, -, hop⟩ := CodeApproval.prepareOperation_ok.mp ho
  have hv : o.Valid := by
    rw [hop]
    exact ⟨Effect.valid_of_check ha hc hcheck, rfl⟩
  have hs : Sent (.prepareOperation body) := ⟨a, _, id, o, ho, hv, hb⟩
  refine (Ensures.attempt (gives_commit hs)).bind fun result => ?_
  cases result with
  | ok u => exact (gives_operation id).weaken fun _ _ _ => trivial
  | error e => exact (gives_recoverPrepared approvalId id body e).weaken fun _ _ _ => trivial

theorem gives_prepareOperation (now : Nat) (approvalId id : String) :
    Gives i (prepareOperationCall now approvalId id) fun _ => True := by
  unfold prepareOperationCall
  refine (gives_operationRow _).andThen fun row _ => ?_
  cases row with
  | some row => exact (gives_fails _ _).andThen fun _ _ => (gives_core _).post fun _ _ _ _ => trivial
  | none => exact gives_prepareNew now approvalId id

theorem gives_moved (x : Except Denied Unit × ExternalOperation) : Gives i (moved x) fun o => x = (.ok (), o) := by
  unfold moved
  exact (gives_core _).andThen fun u hu => gives_pure (Prod.ext hu rfl)

/-- What a caller is told to start was dispatched by its own batch. -/
def Told (i : ι) (r : DispatchResult) (l : List (Transactions.Entry ι Db Batch)) : Prop :=
  match r with
  | .started o => ∃ revision body, Applied i (.dispatch o.id.text revision body) l
  | .existing _ => True

theorem gives_dispatch (now : Nat) (id : String) :
    Ensures (world store) (contract store (adoption ι)) i (fun _ => True) (dispatchCall now id) fun r s => Told i r s.log := by
  unfold dispatchCall
  refine (gives_operationRow _).andThen fun row _ => (gives_first _).andThen fun row _ => ?_
  refine (gives_core _).andThen fun o ho => ?_
  obtain ⟨hr, hi⟩ := restore_ok ho
  by_cases hp : o.state ≠ .prepared
  · simp only [if_pos hp]
    exact .pure fun _ _ _ => trivial
  · simp only [if_neg hp]
    refine (gives_approval _).andThen fun a _ => (gives_candidateContext _).andThen fun c _ => ?_
    refine (gives_moved _).andThen fun o' hd => (gives_fails _ _).andThen fun _ _ => ?_
    have hstate : row.state = .prepared := (ExternalOperation.restore_state hr).symm.trans (Decidable.not_not.mp hp)
    have hid : o'.id.text = id := by rw [(ExternalOperation.Moves.dispatch a _ hd).same.1, hi]
    have hs : Sent (.dispatch id row.revision row.body) := ⟨row.receipt, a, _, o, o', hstate ▸ hr, hd⟩
    refine (Ensures.attempt (gives_commit hs)).bind fun result => ?_
    cases result with
    | ok u => exact .pure fun s _ h => ⟨row.revision, row.body, hid ▸ h () rfl⟩
    | error e =>
      refine ((gives_operation id).weaken fun _ _ _ => trivial).andThen fun current _ => ?_
      by_cases hc : current.state ≠ .prepared
      · simp only [if_pos hc]
        exact .pure fun _ _ _ => trivial
      · simp only [if_neg hc]
        exact .throw

theorem gives_recordOutcome (id : String) (outcome : Outcome) : Gives i (recordOutcomeCall id outcome) fun _ => True := by
  unfold recordOutcomeCall
  refine (gives_operationRow _).andThen fun row _ => (gives_first _).andThen fun row _ => ?_
  refine (gives_core _).andThen fun o ho => (gives_moved _).andThen fun o' hm => ?_
  obtain ⟨hr, -⟩ := restore_ok ho
  by_cases hsame : o'.state = row.state ∧ o'.receipt.map (·.text) = row.receipt
  · simp only [if_pos hsame]
    exact gives_pure trivial
  · simp only [if_neg hsame]
    have hs : Sent (.recordOutcome id row.revision row.body o'.state (o'.receipt.map (·.text)) row.state) :=
      ⟨row.receipt, outcome, o, o', hr, hm, rfl, rfl⟩
    refine (gives_fails _ _).andThen fun _ _ => (Ensures.attempt (gives_commit hs)).bind fun result => ?_
    cases result with
    | ok u => exact .pure fun _ _ _ => trivial
    | error e =>
      refine ((gives_operation id).weaken fun _ _ _ => trivial).andThen fun current _ => ?_
      by_cases hc : current.state = o'.state ∧ current.receipt = o'.receipt
      · simp only [if_pos hc]
        exact gives_pure trivial
      · simp only [if_neg hc]
        exact .throw

theorem gives_cancelOperation (sessionHash id : String) : Gives i (cancelOperationCall sessionHash id) fun _ => True := by
  unfold cancelOperationCall
  refine (gives_owner _).andThen fun o _ => (gives_operationRow _).andThen fun row _ => ?_
  refine (gives_first _).andThen fun row _ => (gives_fails _ _).andThen fun _ _ => (gives_core _).andThen fun op _ => ?_
  refine (gives_moved _).andThen fun op' _ => ?_
  by_cases hc : row.state = .cancelled
  · simp only [if_pos hc]
    exact gives_pure trivial
  · simp only [if_neg hc]
    refine (gives_fails _ _).andThen fun _ _ => ?_
    refine (Ensures.attempt (gives_commit (b := .cancelOperation id row.revision row.body sessionHash) trivial)).bind
      fun result => ?_
    refine ((gives_operation id).weaken fun _ _ _ => trivial).andThen fun current _ => ?_
    cases result with
    | ok u => exact gives_pure trivial
    | error e =>
      by_cases hs : current.state = .cancelled
      · simp only [if_pos hs]
        exact gives_pure trivial
      · simp only [if_neg hs]
        exact .throw

theorem gives_revoke (sessionHash : String) (revoked : Db → String → Option Bool) {b : Batch} (hs : Sent b) :
    Gives i (revoke sessionHash revoked b) fun _ => True := by
  unfold revoke
  refine (gives_owner _).andThen fun o _ => gives_read.andThen fun d _ => (gives_first _).andThen fun r _ => ?_
  cases r with
  | true => exact gives_pure trivial
  | false =>
    refine (Ensures.attempt (gives_commit hs)).bind fun result => ?_
    cases result with
    | ok u => exact .pure fun _ _ _ => trivial
    | error e =>
      cases e with
      | storage => exact .throw
      | denied reason =>
        cases reason with
        | staleAuthority =>
          refine (gives_read.weaken fun _ _ _ => trivial).andThen fun d _ => (gives_first _).andThen fun r _ => ?_
          cases r with
          | true => exact gives_pure trivial
          | false => exact .throw
        | _ => exact .throw

/-! ## Every run -/

/-- What a call knows when it has returned. -/
def Returned (i : ι) (r : Except StoreError Reply) (s : Shared ι Db Batch) : Prop :=
  ∀ o, r = .ok (.dispatch (.started o)) → ∃ revision body, Applied i (.dispatch o.id.text revision body) s.log

theorem gives_replying {x : Store α} {A : α → Shared ι Db Batch → Prop} {f : α → Reply}
    (h : Ensures (world store) (contract store (adoption ι)) i (fun _ => True) x A)
    (hf : ∀ a s, A a s → Returned i (.ok (f a)) s) :
    Valid (world store) (contract store (adoption ι)) i (Returned i) (fun _ => True) (replying x f).run := by
  unfold replying
  refine Valid.post (h.bind (R := fun r s => Returned i (.ok r) s) fun a => .pure fun s _ ha => hf a s ha) ?_
  intro r s _ hr o ho
  exact hr _ ho o rfl

theorem entry_valid {p : Prog (Request StoreError Db Batch) Request.Reply (Except StoreError Reply)} (h : Entry p) :
    Valid (world store) (contract store (adoption ι)) i (Returned i) ((contract store (adoption ι)).fresh i) p := by
  have hany : Valid (world store) (contract store (adoption ι)) i (Returned i) (fun _ => True) p := by
    cases h with
    | prepare now approvalId id => exact gives_replying (gives_prepareOperation now approvalId id) fun _ _ _ _ h => by cases h
    | dispatch now id =>
      refine gives_replying (gives_dispatch now id) fun r s hr o ho => ?_
      cases ho
      exact hr
    | recordOutcome id outcome => exact gives_replying (gives_recordOutcome id outcome) fun _ _ _ _ h => by cases h
    | cancel sessionHash id => exact gives_replying (gives_cancelOperation sessionHash id) fun _ _ _ _ h => by cases h
    | revokeGrant sessionHash id => exact gives_replying (gives_revoke _ _ trivial) fun _ _ _ _ h => by cases h
    | revokeRun sessionHash id => exact gives_replying (gives_revoke _ _ trivial) fun _ _ _ _ h => by cases h
    | revokeApproval sessionHash id => exact gives_replying (gives_revoke _ _ trivial) fun _ _ _ _ h => by cases h
    | elsewhere b hb =>
      have hs : Sent b := by cases b <;> trivial
      exact gives_replying (gives_commit hs) fun _ _ _ _ h => by cases h
  exact hany.weaken fun _ _ _ => trivial

/-- Two dispatches of one operation in the log are one caller's. -/
theorem Adoption.started_once {d : Db} {l : List (Transactions.Entry ι Db Batch)} (h : Adoption d l) {i j : ι} {id id' : Id}
    {revision revision' : Nat} {body body' : String} {x y : Db} (he : ⟨i, .dispatch id.text revision body, x⟩ ∈ l)
    (hf : ⟨j, .dispatch id'.text revision' body', y⟩ ∈ l) (hid : id = id') : i = j := by
  subst hid
  by_contra hij
  have hsymm : Std.Symm fun e f : Transactions.Entry ι Db Batch => ∀ id revision body revision' body',
      e.tx = .dispatch id revision body → f.tx ≠ .dispatch id revision' body' :=
    ⟨fun e f h id revision body revision' body' hf he => h id revision' body' revision body he hf⟩
  have hne : (⟨i, .dispatch id.text revision body, x⟩ : Transactions.Entry ι Db Batch) ≠
      ⟨j, .dispatch id.text revision' body', y⟩ := fun h => hij (congrArg Transactions.Entry.caller h)
  exact h.once.forall he hf hne _ _ _ _ _ rfl rfl

theorem initial {d : Db} (hk : Keys d) (ho : d.operations = []) (hc : d.claims = []) : Adoption (ι := ι) d [] := by
  refine ⟨⟨hk, ?_, ?_, ?_, ?_, ?_⟩, ?_, ?_, .nil, ?_⟩
  all_goals simp [ho, hc]

/-- The caller has returned with the reply. -/
abbrev Replied (c : Config ι (Shared ι Db Batch) (Request StoreError Db Batch) Request.Reply (Except StoreError Reply))
    (i : ι) (r : Reply) : Prop := c.callers i = some (.ret (.ok r))

/-- Exclusive, at-most-once adoption in every run. -/
theorem adoption_exclusive [DecidableEq ι] {d : Db} (hk : Keys d) (ho : d.operations = []) (hc : d.claims = [])
    {c : Config ι (Shared ι Db Batch) (Request StoreError Db Batch) Request.Reply (Except StoreError Reply)}
    (hr : Runs store (fun _ => Entry) d c) :
    -- At most one caller is told that it started an operation, and none after a cancel.
    (∀ i j o o', Replied c i (.dispatch (.started o)) → Replied c j (.dispatch (.started o')) → o.id = o'.id → i = j) ∧
    (∀ i o, Replied c i (.dispatch (.started o)) → ∀ e ∈ c.state.log, ∀ revision body sessionHash,
      e.tx ≠ .cancelOperation o.id.text revision body sessionHash) ∧
    -- A target has at most one operation that is dispatched and not settled, and that one holds its claim.
    (∀ o ∈ c.state.db.operations, ∀ o' ∈ c.state.db.operations, o.Active → o'.Active → o.place = o'.place → o = o') ∧
    (∀ o ∈ c.state.db.operations, o.Active →
      ∃ k ∈ c.state.db.claims, k.operationId = o.operationId ∧ o.place = some k.place) ∧
    (∀ k ∈ c.state.db.claims, ∃ o ∈ c.state.db.operations, o.operationId = k.operationId ∧ o.Active) ∧
    -- It is given up by the batch that records a receipt, and by no other.
    (∀ e ∈ c.state.log, ∃ d', e.tx.run e.before = some d' ∧ ∀ k ∈ e.before.claims, k ∉ d'.claims ↔
      ∃ revision body after receipt before, e.tx = .recordOutcome k.operationId revision body after receipt before ∧
        after.terminal = true) ∧
    -- No target revision and no approval is used twice.
    (∀ o ∈ c.state.db.operations, ∀ o' ∈ c.state.db.operations, o.Begun → o'.Begun → o.place = o'.place →
      o.targetRevision = o'.targetRevision → o = o') ∧
    (∀ o ∈ c.state.db.operations, ∀ o' ∈ c.state.db.operations, o.approvalId = o'.approvalId → o = o') ∧
    -- Every row restores to an operation that the calls of the core prepared and moved.
    ∀ o ∈ c.state.db.operations, ∃ first last, (∃ a x, CodeApproval.prepareOperation a adoptCode o.operationId x = .ok first) ∧
      Relation.ReflTransGen ExternalOperation.Moves first last ∧ o.restore o.operationId = .ok last ∧
      o.place = some (last.effect.repository.text, last.effect.reference) ∧
      o.targetRevision = some last.effect.targetRevision := by
  have hgood := Runs.good adoption_keeps (fun i p hp => entry_valid hp) (initial hk ho hc) hr
  have hinv : Adoption c.state.db c.state.log := hgood.1.1
  have hx := hinv.exclusive
  refine ⟨?_, ?_, ?_, ?_, ?_, ?_, hx.distinct, fun o ho o' ho' => hx.keys.consumed.eq ho ho', ?_⟩
  · intro i j o o' hi hj hid
    obtain ⟨revision, body, x, he⟩ := hgood.returned hi o rfl
    obtain ⟨revision', body', y, hf⟩ := hgood.returned hj o' rfl
    exact hinv.started_once he hf hid
  · intro i o hi e he revision body sessionHash hb
    obtain ⟨revision', body', x, hs⟩ := hgood.returned hi o rfl
    obtain ⟨p, hp, hpi, hbegun⟩ := hinv.started _ hs _ _ _ rfl
    obtain ⟨q, hq, hqi, hcancelled⟩ := hinv.cancelled e he _ _ _ _ hb
    rw [hx.keys.operations.eq hq hp (hqi.trans hpi.symm)] at hcancelled
    exact hbegun.2 hcancelled
  · intro o ho o' ho' ha ha' hp
    obtain ⟨k, hk, hki⟩ := hx.held o ho ha
    obtain ⟨k', hk', hki'⟩ := hx.held o' ho' ha'
    have hkp := (hx.claim_of ho hk hki).2
    have hkp' := (hx.claim_of ho' hk' hki').2
    have he : k = k' := hx.keys.claims.eq hk hk' (Option.some.inj (hkp.symm.trans (hp.trans hkp')))
    exact hx.keys.operations.eq ho ho' (hki.symm.trans (he ▸ hki'))
  · intro o ho ha
    obtain ⟨k, hk, hki⟩ := hx.held o ho ha
    exact ⟨k, hk, hki, (hx.claim_of ho hk hki).2⟩
  · intro k hk
    obtain ⟨o, ho, hi, ha, -⟩ := hx.claimed k hk
    exact ⟨o, ho, hi, ha⟩
  · intro e he
    obtain ⟨hb, d', hd⟩ := hinv.ran e he
    exact ⟨d', hd, fun k hk => hb.released hd hk⟩
  · intro o ho
    exact (hx.restores o ho).restored

end

/-- One caller observes a target and another asks to dispatch what was never prepared. -/
theorem adoption_exclusive_observed :
    ∃ c : Config Nat (Shared Nat Db Batch) (Request StoreError Db Batch) Request.Reply (Except StoreError Reply),
      Runs store (fun _ => Entry) .empty c ∧ c.state.db.targets = [⟨"repository-1", "refs/heads/main", "owner-1", "0", 1, true⟩] ∧
        c.callers 1 = some (.ret (.error (.denied .bindingMismatch))) ∧
        ∀ i j o o', Replied c i (.dispatch (.started o)) → Replied c j (.dispatch (.started o')) → o.id = o'.id → i = j := by
  have hrun : ∃ c : Config Nat (Shared Nat Db Batch) (Request StoreError Db Batch) Request.Reply (Except StoreError Reply),
      Runs store (fun _ => Entry) .empty c ∧
        c.state.db.targets = [⟨"repository-1", "refs/heads/main", "owner-1", "0", 1, true⟩] ∧
        c.callers 1 = some (.ret (.error (.denied .bindingMismatch))) := by
    have hstart : Runs store (fun _ => Entry) .empty _ :=
      .single (.start (i := 0) rfl (.elsewhere (.refreshTarget ⟨"repository-1", "refs/heads/main", "owner-1", "0", 1, true⟩) rfl))
    have hseen := hstart.tail (.call (i := 0) rfl (.commit rfl))
    have hasked := hseen.tail (.start (i := 1) rfl (.dispatch 0 "operation-1"))
    exact ⟨_, hasked.tail (.call (i := 1) rfl .read), rfl, rfl⟩
  obtain ⟨c, hc, ht, hr⟩ := hrun
  exact ⟨c, hc, ht, hr, (adoption_exclusive .empty rfl rfl hc).1⟩

end Mikaki.WorkStore
