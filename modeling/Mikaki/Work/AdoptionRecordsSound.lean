import Mikaki.Work.AdoptionRecords
import Mikaki.Work.AdoptionSound
import Mikaki.Work.DelegationRecordsSound

/-!
# Approvals and operations are read back as they were stored
-/

namespace Mikaki

open Checks

namespace CodeApproval

structure Valid (a : CodeApproval) : Prop where
  standing : Standing a.revision a.revoked
  ownerEpoch : a.ownerEpoch ≤ maxStoredInteger
  policyRevision : 0 < a.policyRevision ∧ a.policyRevision ≤ maxStoredInteger
  targetRevision : 0 < a.targetRevision ∧ a.targetRevision ≤ maxStoredInteger
  expiresAt : 0 < a.expiresAt ∧ a.expiresAt ≤ maxStoredInteger
  producer : a.producer.Stored

variable {a : CodeApproval}

theorem Valid.revoke (h : a.Valid) :
    a.revoke = (.ok (), { a with revision := 2, revoked := true }) ∧ a.revoke.2.Valid := by
  have hr : a.revoke = (.ok (), { a with revision := 2, revoked := true }) := by
    rw [CodeApproval.revoke, h.standing.revoke]
  rw [hr]
  exact ⟨rfl, .inr ⟨rfl, rfl⟩, h.ownerEpoch, h.policyRevision, h.targetRevision, h.expiresAt, h.producer⟩

theorem read_state {revision : Nat} {revoked : Bool} {v : Json.Value} (h : read revision revoked v = some a) :
    a.revision = revision ∧ a.revoked = revoked := by
  simp only [read, Option.bind_eq_bind, Option.bind_eq_some_iff, Option.pure_def, Option.some.injEq] at h
  obtain ⟨_, -, _, -, _, -, _, -, _, -, _, -, _, -, _, -, _, -, rfl⟩ := h
  exact ⟨rfl, rfl⟩

theorem restore_ok {text : String} {revision : Nat} {revoked : Bool}
    (h : restoreAuthorityRecord text revision revoked = .ok a) :
    Records.decode "code_approval" (read revision revoked) text = .ok a ∧ a.Valid := by
  simp only [restoreAuthorityRecord, bind_eq_ok, exists_unit, storedNumber_ok, storedNumber_zero_ok, pure_eq_ok,
    Records.state_ok, ProducerRevision.checkStored_ok] at h
  obtain ⟨raw, hd, hs, ho, hp, ht, he, hr, rfl⟩ := h
  obtain ⟨_, hv⟩ := Records.decode_ok hd
  obtain ⟨rfl, rfl⟩ := read_state hv
  exact ⟨hd, hs, ho, hp, ht, he, hr⟩

theorem approve_valid {id : String} {reviewed : Digest} {s : OwnerSession} {c : AdoptionContext} {x : Nat}
    (hg : c.grant.Valid) (hn : c.run.Valid) (h : approve id reviewed s c x = .ok a) : a.Valid := by
  obtain ⟨hs, -, -, -, hd, -, -, h⟩ := approve_ok.mp h
  rw [h]
  obtain ⟨hp, -⟩ := Environment.checkOwner_ok.mp (OwnerSession.check_ok.mp hs).1
  exact { standing := .inl ⟨rfl, rfl⟩, ownerEpoch := s.stored.1, policyRevision := hp, targetRevision := c.target.stored
          expiresAt := (deadline_ok.mp hd).2.1, producer := ⟨hg.standing.stored, hn.standing.stored⟩ }

theorem record_size (h : a.Valid) : (Records.envelope "code_approval" a.toJson).render.utf8ByteSize ≤ maxRecordBytes := by
  have := a.id.width_le; have := a.owner.width_le; have := a.candidate.width
  have := ProducerRevision.toJson_width h.producer
  have := stored_width h.ownerEpoch; have := stored_width h.policyRevision.2
  have := stored_width h.targetRevision.2; have := stored_width h.expiresAt.2
  have hk : Json.keysWidth ["id", "owner", "owner_epoch", "policy_revision", "candidate", "producer",
    "target_revision", "expires_at"] ≤ 200 := by decide
  have : Json.width a.toJson.chars ≤ 1100 := by
    refine Nat.le_trans (Json.width_obj _) ?_
    simp only [List.map_cons, List.map_nil, Json.valuesWidth, List.sum_cons, List.sum_nil]
    omega
  have := Records.envelope_size "code_approval" a.toJson (show _ ≤ 20 by decide) this
  simp only [maxRecordBytes]; omega

theorem read_toJson (h : a.Valid) : read a.revision a.revoked a.toJson = some a := by
  refine Records.fields_bind rfl rfl (by decide) fun f hm => ?_
  simp only [Records.FieldsOf, List.forall_mem_cons] at hm
  simp only [hm, Records.some_bind, Records.id_text, Records.digest_toHex,
    ProducerRevision.read_toJson h.producer, Records.u64_num (stored_lt h.ownerEpoch), Records.u64_num (stored_lt
    h.policyRevision.2), Records.u64_num (stored_lt h.targetRevision.2), Records.u64_num (stored_lt h.expiresAt.2)]
  rfl

theorem restore_record (h : a.Valid) :
    ∃ text, a.authorityRecord = .ok text ∧ restoreAuthorityRecord text a.revision a.revoked = .ok a := by
  have he : a.authorityRecord = .ok _ := Records.encode_ok.mpr ⟨record_size h, rfl⟩
  refine ⟨_, he, ?_⟩
  simp only [restoreAuthorityRecord, bind_eq_ok, exists_unit, storedNumber_ok, storedNumber_zero_ok, pure_eq_ok,
    Records.state_ok, ProducerRevision.checkStored_ok]
  exact ⟨a, Records.decode_encode he (read_toJson h), h.standing, h.ownerEpoch, h.policyRevision, h.targetRevision,
    h.expiresAt, h.producer, rfl⟩

/-- An approval, of a candidate whose producer may have been revoked since. -/
inductive Reachable [Hashes] : CodeApproval → Prop
  | approve {id : String} {reviewed : Digest} {s : OwnerSession} {c : AdoptionContext} {x : Nat} {a : CodeApproval}
      (hg : c.grant.Reachable) (hn : c.run.Reachable) (h : approve id reviewed s c x = .ok a) : Reachable a
  | revoke {a : CodeApproval} (h : Reachable a) : Reachable a.revoke.2
  | restore {text : String} {revision : Nat} {revoked : Bool} {a : CodeApproval}
      (h : restoreAuthorityRecord text revision revoked = .ok a) : Reachable a

theorem Reachable.valid [Hashes] (h : a.Reachable) : a.Valid := by
  induction h with
  | approve hg hn h => exact approve_valid hg.valid hn.valid h
  | revoke _ ih => exact ih.revoke.2
  | restore h => exact (restore_ok h).2

end CodeApproval

namespace Effect

/-- What restoring an operation asks of its effect. -/
structure Valid (e : Effect) : Prop where
  ownerEpoch : e.ownerEpoch ≤ maxStoredInteger
  approvalRevision : 0 < e.approvalRevision ∧ e.approvalRevision ≤ maxStoredInteger
  policyRevision : 0 < e.policyRevision ∧ e.policyRevision ≤ maxStoredInteger
  targetRevision : 0 < e.targetRevision ∧ e.targetRevision ≤ maxStoredInteger
  producer : e.producer.Stored
  reference : branchRef e.reference = .ok ()
  expectedHead : (e.expectedHead.utf8ByteSize = 40 ∨ e.expectedHead.utf8ByteSize = 64) ∧ lowerHex e.expectedHead = true
  commit : (e.commit.utf8ByteSize = 40 ∨ e.commit.utf8ByteSize = 64) ∧ lowerHex e.commit = true
  sameLength : e.expectedHead.utf8ByteSize = e.commit.utf8ByteSize

variable {e : Effect}

theorem read_toJson (h : e.Valid) : read e.toJson = some e := by
  refine Records.fields_bind rfl rfl (by decide) fun f hm => ?_
  simp only [Records.FieldsOf, List.forall_mem_cons] at hm
  simp only [hm, Records.some_bind, Records.id_text, Records.digest_toHex, Records.string_str,
    ProducerRevision.read_toJson h.producer, Records.u64_num (stored_lt h.ownerEpoch), Records.u64_num (stored_lt
    h.approvalRevision.2), Records.u64_num (stored_lt h.policyRevision.2), Records.u64_num (stored_lt
    h.targetRevision.2)]
  rfl

theorem toJson_width (h : e.Valid) : Json.width e.toJson.chars ≤ 2000 := by
  have := e.approval.width_le; have := e.owner.width_le; have := e.repository.width_le; have := e.candidate.width
  have := ProducerRevision.toJson_width h.producer
  have := stored_width h.ownerEpoch; have := stored_width h.approvalRevision.2
  have := stored_width h.policyRevision.2; have := stored_width h.targetRevision.2
  have := RequestInput.branchRef_width h.reference
  have := RequestInput.oid_width h.expectedHead; have := RequestInput.oid_width h.commit
  have hk : Json.keysWidth names ≤ 200 := by decide
  refine Nat.le_trans (Json.width_obj _) ?_
  simp only [names] at hk
  simp only [List.map_cons, List.map_nil, Json.valuesWidth, List.sum_cons, List.sum_nil]
  omega

/-- The effect of an approval that passes its check on a reachable candidate. -/
theorem valid_of_check [Hashes] {a : CodeApproval} {c : AdoptionContext} {action : String} {r : WorkRequest} {g : Grant}
    {n : Run} (ha : a.Valid) (hc : Candidate.Valid r g n c.candidate) (h : a.check action c = .ok ()) :
    (a.effect c).Valid := by
  obtain ⟨-, -, -, -, -, ht, -, hrev, -⟩ := CodeApproval.check_ok.mp h
  obtain ⟨-, -, -, -, -, hhead⟩ := AdoptionContext.checkTarget_ok.mp ht
  obtain ⟨hcommit, -, hlen, -, -, -, -, -, he⟩ := hc.fields
  have hh : c.target.head = r.input.expectedHead := by rw [hhead, he, hc.restores.target.2.2.1]
  exact {
    ownerEpoch := ha.ownerEpoch, approvalRevision := ha.standing.stored, policyRevision := ha.policyRevision
    targetRevision := c.target.stored, producer := ha.producer, reference := c.target.branch
    expectedHead := (gitOid_ok.mp c.target.oid).1, commit := hcommit
    sameLength := by
      show c.target.head.utf8ByteSize = c.candidate.commit.utf8ByteSize
      rw [hh, hlen, hc.restores.target.2.2.2, hc.request.input.sameLength] }

end Effect

namespace ExternalOperation

/-- A receipt is present exactly in the settled states. -/
structure Valid (o : ExternalOperation) : Prop where
  effect : o.effect.Valid
  receipt : o.state.terminal = o.receipt.isSome

variable {o : ExternalOperation}

theorem readReceipt_text (receipt : Option Id) : readReceipt (receipt.map (·.text)) = .ok receipt := by
  cases receipt with
  | none => rfl
  | some r => simp [readReceipt]

theorem readReceipt_isSome {receipt : Option String} {r : Option Id} (h : readReceipt receipt = .ok r) :
    r.isSome = receipt.isSome := by
  cases receipt with
  | none => cases h; rfl
  | some s =>
    simp only [readReceipt, bind_eq_ok, pure_eq_ok] at h
    obtain ⟨i, -, rfl⟩ := h
    rfl

theorem restore_valid {text : String} {current : OperationState} {receipt : Option String}
    (h : restoreAuthorityRecord text current receipt = .ok o) : o.Valid := by
  simp only [restoreAuthorityRecord, bind_eq_ok, exists_unit, storedNumber_ok, storedNumber_zero_ok, checkAll_eq_ok,
    List.forall_mem_cons, ProducerRevision.checkStored_ok, gitOid_ok, denyIf_eq_ok, ne_eq, Decidable.not_not,
    pure_eq_ok] at h
  obtain ⟨⟨i, e⟩, -, he, ⟨h₁, h₂, h₃, -⟩, hp, hr, _, ⟨hh, -⟩, _, ⟨hc, -⟩, hl, ht, r, hrec, rfl⟩ := h
  exact ⟨⟨he, h₁, h₂, h₃, hp, hr, hh, hc, hl⟩, ht.trans (readReceipt_isSome hrec).symm⟩

theorem dispatch_valid {a : CodeApproval} {c : AdoptionContext} (h : o.Valid) : (a.dispatch o c).2.Valid := by
  obtain ⟨hs, -, -, hd⟩ | ⟨e, hd⟩ := a.dispatch_cases o c <;> rw [hd]
  · exact ⟨h.effect, by rw [← h.receipt, hs]; rfl⟩
  · exact h

theorem cancel_valid (h : o.Valid) : o.cancelUndispatched.2.Valid := by
  obtain ⟨hs, hd⟩ | ⟨e, hd⟩ := o.cancelUndispatched_cases <;> rw [hd]
  · exact ⟨h.effect, by rw [← h.receipt]; rcases hs with hs | hs <;> simp [hs, OperationState.terminal]⟩
  · exact h

theorem unknown_valid (h : o.Valid) : o.markOutcomeUnknown.2.Valid := by
  obtain ⟨hs, hd⟩ | ⟨e, hd⟩ := o.markOutcomeUnknown_cases <;> rw [hd]
  · exact ⟨h.effect, by rw [← h.receipt]; rcases hs with hs | hs <;> simp [hs, OperationState.terminal]⟩
  · exact h

theorem finish_valid {outcome : OperationState} {receipt : String} (ho : outcome.terminal = true) (h : o.Valid) :
    (o.finish outcome receipt).2.Valid := by
  obtain ⟨r, -, -, hd⟩ | ⟨r, -, -, -, -, hd⟩ | ⟨e, hd⟩ := o.finish_cases outcome receipt <;> rw [hd]
  · exact ⟨h.effect, ho⟩
  · exact h
  · exact h

theorem record_size (h : o.Valid) :
    (Records.envelope "code_operation" o.toJson).render.utf8ByteSize ≤ maxRecordBytes := by
  have := o.id.width_le
  have := Effect.toJson_width h.effect
  have hk : Json.keysWidth ["id", "effect"] ≤ 20 := by decide
  have : Json.width o.toJson.chars ≤ 2200 := by
    refine Nat.le_trans (Json.width_obj _) ?_
    simp only [List.map_cons, List.map_nil, Json.valuesWidth, List.sum_cons, List.sum_nil]
    omega
  have := Records.envelope_size "code_operation" o.toJson (show _ ≤ 20 by decide) this
  simp only [maxRecordBytes]; omega

theorem read_toJson (h : o.Valid) : read o.toJson = some (o.id, o.effect) := by
  refine Records.fields_bind rfl rfl (by decide) fun f hm => ?_
  simp only [Records.FieldsOf, List.forall_mem_cons] at hm
  simp only [hm, Records.some_bind, Records.id_text, Effect.read_toJson
    h.effect]
  rfl

theorem restore_record (h : o.Valid) : ∃ text, o.authorityRecord = .ok text ∧
    restoreAuthorityRecord text o.state (o.receipt.map (·.text)) = .ok o := by
  have he : o.authorityRecord = .ok _ := Records.encode_ok.mpr ⟨record_size h, rfl⟩
  refine ⟨_, he, ?_⟩
  have hr : o.state.terminal = (o.receipt.map (·.text)).isSome := by rw [Option.isSome_map]; exact h.receipt
  obtain ⟨h₁, h₂, h₃, h₄, h₅, h₆, h₇, h₈, h₉⟩ := h.effect
  simp only [restoreAuthorityRecord, bind_eq_ok, exists_unit, storedNumber_ok, storedNumber_zero_ok, checkAll_eq_ok,
    List.forall_mem_cons, ProducerRevision.checkStored_ok, gitOid_ok, denyIf_eq_ok, ne_eq, Decidable.not_not,
    pure_eq_ok]
  exact ⟨_, Records.decode_encode he (read_toJson h), h₁, ⟨h₂, h₃, h₄, fun _ hm => by cases hm⟩, h₅, h₆, _, ⟨h₇, rfl⟩, _,
    ⟨h₈, rfl⟩, h₉, hr, _, readReceipt_text _, rfl⟩

/-- An operation, prepared for a reachable candidate and moved by any approvals in any contexts. -/
inductive Reachable [Hashes] : ExternalOperation → Prop
  | prepare {a : CodeApproval} {action id : String} {c : AdoptionContext} {r : WorkRequest} {g : Grant} {n : Run}
      {o : ExternalOperation} (ha : a.Reachable) (hc : Candidate.Reachable r g n c.candidate)
      (h : a.prepareOperation action id c = .ok o) : Reachable o
  | dispatch {a : CodeApproval} {c : AdoptionContext} {o : ExternalOperation} (h : Reachable o) :
      Reachable (a.dispatch o c).2
  | cancel {o : ExternalOperation} (h : Reachable o) : Reachable o.cancelUndispatched.2
  | unknown {o : ExternalOperation} (h : Reachable o) : Reachable o.markOutcomeUnknown.2
  | applied {receipt : String} {o : ExternalOperation} (h : Reachable o) : Reachable (o.confirmApplied receipt).2
  | rejected {receipt : String} {o : ExternalOperation} (h : Reachable o) : Reachable (o.confirmRejected receipt).2
  | restore {text : String} {current : OperationState} {receipt : Option String} {o : ExternalOperation}
      (h : restoreAuthorityRecord text current receipt = .ok o) : Reachable o

theorem Reachable.valid [Hashes] (h : o.Reachable) : o.Valid := by
  induction h with
  | prepare ha hc h =>
    obtain ⟨hk, -, h⟩ := CodeApproval.prepareOperation_ok.mp h
    rw [h]
    exact ⟨Effect.valid_of_check ha.valid hc.valid hk, rfl⟩
  | dispatch _ ih => exact dispatch_valid ih
  | cancel _ ih => exact cancel_valid ih
  | unknown _ ih => exact unknown_valid ih
  | applied _ ih => exact finish_valid rfl ih
  | rejected _ ih => exact finish_valid rfl ih
  | restore h => exact restore_valid h

end ExternalOperation

/-! ## Every authority record is read back -/

/-- No reachable value outgrows a record, and each is restored from its record and its current state. -/
theorem authorityRecord_roundTrip [Hashes] :
    (∀ r : WorkRequest, r.Reachable → ∃ text, r.authorityRecord = .ok text ∧ text.utf8ByteSize ≤ maxRecordBytes ∧
      WorkRequest.restoreAuthorityRecord text = .ok r) ∧
    (∀ g : Grant, g.Reachable → ∃ text, g.authorityRecord = .ok text ∧ text.utf8ByteSize ≤ maxRecordBytes ∧
      Grant.restoreAuthorityRecord text g.revision g.revoked = .ok g) ∧
    (∀ n : Run, n.Reachable → ∃ text, n.authorityRecord = .ok text ∧ text.utf8ByteSize ≤ maxRecordBytes ∧
      Run.restoreAuthorityRecord text n.revision n.revoked = .ok n) ∧
    (∀ r g n, ∀ c : Candidate, Candidate.Reachable r g n c → ∃ text, c.authorityRecord = .ok text ∧
      text.utf8ByteSize ≤ maxRecordBytes ∧ Candidate.restoreAuthorityRecord text r g n = .ok c) ∧
    (∀ a : CodeApproval, a.Reachable → ∃ text, a.authorityRecord = .ok text ∧ text.utf8ByteSize ≤ maxRecordBytes ∧
      CodeApproval.restoreAuthorityRecord text a.revision a.revoked = .ok a) ∧
    (∀ o : ExternalOperation, o.Reachable → ∃ text, o.authorityRecord = .ok text ∧
      text.utf8ByteSize ≤ maxRecordBytes ∧
      ExternalOperation.restoreAuthorityRecord text o.state (o.receipt.map (·.text)) = .ok o) := by
  refine ⟨fun r h => ?_, fun g h => ?_, fun n h => ?_, fun r g n c h => ?_, fun a h => ?_, fun o h => ?_⟩
  · obtain ⟨text, he, hr⟩ := WorkRequest.restore_record h.valid
    exact ⟨text, he, Records.encode_size he, hr⟩
  · obtain ⟨text, he, hr⟩ := Grant.restore_record h.valid
    exact ⟨text, he, Records.encode_size he, hr⟩
  · obtain ⟨text, he, hr⟩ := Run.restore_record h.valid
    exact ⟨text, he, Records.encode_size he, hr⟩
  · obtain ⟨text, he, hr⟩ := Candidate.restore_record h.valid
    exact ⟨text, he, Records.encode_size he, hr⟩
  · obtain ⟨text, he, hr⟩ := CodeApproval.restore_record h.valid
    exact ⟨text, he, Records.encode_size he, hr⟩
  · obtain ⟨text, he, hr⟩ := ExternalOperation.restore_record h.valid
    exact ⟨text, he, Records.encode_size he, hr⟩

/-! ## One chain of authority, from a request to an operation -/

namespace Sample

theorem request_checked : request.check environment = .ok () := by decide

def task : TaskRepository :=
  { owner, id := taskId, revision := 2, disclosure := hash 5, available := true
    preparedDisclosure := none, stored := by decide }

def grant : Grant :=
  { id := ⟨"grant-1", by decide⟩, revision := 1, request := request.digest, taskRevision := 2, expiresAt := 4000
    revoked := false }

theorem task_checked : task.check request = .ok () := by decide +kernel

theorem grant_approved : Grant.approve "grant-1" request request.digest session task environment = .ok grant :=
  Grant.approve_ok.mpr ⟨session_checked, request_checked, rfl, rfl, task_checked, rfl, rfl⟩

theorem grant_checked : grant.check request task environment = .ok () :=
  Grant.check_ok.mpr ⟨request_checked, rfl, by decide, rfl, task_checked, rfl⟩

def actor : ManagedActor :=
  { issuer := ⟨"issuer-1", by decide⟩, issuerRevision := 1, client := client
    workload := Sample.workload, run := ⟨"run-1", by decide⟩, grant := ⟨"grant-1", by decide⟩
    proofKey := hash 9, expiresAt := 3000, stored := by decide }

def run : Run :=
  { id := actor.run, revision := 1, grant := grant.id, request := request.digest, issuer := actor.issuer
    issuerRevision := 1, client := actor.client, workload := actor.workload, proofKey := actor.proofKey
    expiresAt := 2000, revoked := false }

theorem run_registered : Run.register actor grant request task 2000 environment = .ok run :=
  Run.register_ok.mpr ⟨grant_checked, by decide, ⟨rfl, rfl, rfl⟩, by decide, by decide, rfl⟩

def guard : SubmissionGuard :=
  { owner, ownerEpoch := 3, policyRevision := 7, request := request.digest, requestRevision := 1
    producer := .current grant run, task := task.id, taskRevision := 2, disclosure := hash 5, proofKey := actor.proofKey
    authenticationExpires := 3000, expiresAt := 2000, adoptionRepository := "code-1"
    adoptionRef := "refs/heads/main", expectedHead := oid 'b', gitOidLength := 40 }

theorem guard_issued : run.authorizeSubmission submit grant request actor task environment = .ok guard :=
  Run.authorizeSubmission_ok.mpr
    ⟨rfl, grant_checked, rfl, by decide, rfl, ⟨rfl, rfl, rfl, rfl, rfl, rfl, rfl, rfl⟩, rfl⟩

def candidateInput : CandidateInput := { commit := oid 'c', tree := oid 'd', evidence := hash 6 }

def candidate : Candidate :=
  { provenance := guard, owner, producer := guard.producer, request := request.digest, adoptionRepository := "code-1"
    adoptionRef := "refs/heads/main", expectedHead := oid 'b', commit := oid 'c', tree := oid 'd', evidence := hash 6
    digest := sha256 (guard.preimage (oid 'c') (oid 'd') (hash 6)) }

theorem candidate_prepared : guard.prepareCandidate candidateInput = .ok { guard, candidate } :=
  SubmissionGuard.prepareCandidate_ok.mpr ⟨by decide +kernel, by decide +kernel, by decide +kernel, rfl⟩

def target : CodeTarget :=
  { owner, repository := code, reference := "refs/heads/main", head := oid 'b', revision := 4
    writable := true, stored := by decide, branch := by decide +kernel, oid := by decide +kernel }

def context : AdoptionContext := { candidate, grant, run, target, environment }

def approval : CodeApproval :=
  { id := ⟨"approval-1", by decide⟩, revision := 1, owner, ownerEpoch := 3, policyRevision := 7
    candidate := candidate.digest, producer := .current grant run, targetRevision := 4, expiresAt := 1200
    revoked := false }

theorem target_checked : context.checkTarget = .ok () :=
  AdoptionContext.checkTarget_ok.mpr
    ⟨Candidate.checkProducer_ok.mpr ⟨⟨rfl, rfl, rfl⟩, rfl, rfl⟩, rfl, rfl, rfl, rfl, rfl⟩

theorem approval_given : CodeApproval.approve "approval-1" candidate.digest session context 1200 = .ok approval :=
  CodeApproval.approve_ok.mpr ⟨session_checked, target_checked, rfl, rfl, by decide, by decide, rfl, rfl⟩

theorem approval_checked : approval.check adoptCode context = .ok () :=
  CodeApproval.check_ok.mpr ⟨rfl, by decide, rfl, by decide, rfl, target_checked, ⟨rfl, rfl⟩, rfl, rfl⟩

def operation : ExternalOperation :=
  { id := ⟨"operation-1", by decide⟩, effect := approval.effect context, state := .prepared, receipt := none }

theorem operation_prepared : approval.prepareOperation adoptCode "operation-1" context = .ok operation :=
  CodeApproval.prepareOperation_ok.mpr ⟨approval_checked, rfl, rfl⟩

theorem request_reachable : request.Reachable := .validate request_validated
theorem grant_reachable : grant.Reachable := .approve request_reachable grant_approved
theorem run_reachable : run.Reachable := .register run_registered
theorem candidate_reachable : Candidate.Reachable request grant run candidate :=
  .confirm request_reachable grant_reachable run_reachable guard_issued candidate_prepared
    (PreparedCandidate.confirm_ok.mpr ⟨rfl, rfl⟩)
theorem approval_reachable : approval.Reachable := .approve grant_reachable run_reachable approval_given
theorem operation_reachable : operation.Reachable :=
  .prepare approval_reachable candidate_reachable operation_prepared

end Sample

/-- The round trip on the chain above, with the request's goal and acceptance text escaped. -/
theorem authorityRecord_roundTrip_sample :
    (∃ text, Sample.request.authorityRecord = .ok text ∧ text.utf8ByteSize ≤ maxRecordBytes ∧
      WorkRequest.restoreAuthorityRecord text = .ok Sample.request) ∧
    (∃ text, Sample.candidate.authorityRecord = .ok text ∧ text.utf8ByteSize ≤ maxRecordBytes ∧
      Candidate.restoreAuthorityRecord text Sample.request Sample.grant Sample.run = .ok Sample.candidate) ∧
    ∃ text, Sample.operation.authorityRecord = .ok text ∧ text.utf8ByteSize ≤ maxRecordBytes ∧
      ExternalOperation.restoreAuthorityRecord text .prepared none = .ok Sample.operation := by
  obtain ⟨hr, -, -, hc, -, ho⟩ := authorityRecord_roundTrip
  exact ⟨hr _ Sample.request_reachable, hc _ _ _ _ Sample.candidate_reachable, ho _ Sample.operation_reachable⟩

end Mikaki
