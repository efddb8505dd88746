import Mikaki.Work.DelegationRecords
import Mikaki.Work.DelegationSound

/-!
# Grants, runs and candidates are read back as they were stored

`Reachable` is what the public constructors and transitions can produce. A
`Valid` predicate for each type is the invariant they keep, and all that
restoring a record of the type asks for.
-/

namespace Mikaki

open Checks

section
variable [Hashes]

inductive WorkRequest.Reachable : WorkRequest → Prop
  | validate {i : RequestInput} {s : OwnerSession} {e : Environment} {r : WorkRequest} (h : i.validate s e = .ok r) :
      Reachable r
  | restore {text : String} {r : WorkRequest} (h : restoreAuthorityRecord text = .ok r) : Reachable r

theorem WorkRequest.Reachable.valid {r : WorkRequest} (h : r.Reachable) : r.Valid := by
  cases h with
  | validate h => exact validate_valid h
  | restore h => exact restore_valid h

end

/-! ## Grants -/

namespace Grant

inductive Reachable [Hashes] : Grant → Prop
  | approve {id : String} {r : WorkRequest} {reviewed : Digest} {s : OwnerSession} {t : TaskRepository}
      {e : Environment} {g : Grant} (hr : r.Reachable) (h : approve id r reviewed s t e = .ok g) : Reachable g
  | revoke {g : Grant} (hg : Reachable g) : Reachable g.revoke.2
  | restore {text : String} {revision : Nat} {revoked : Bool} {g : Grant}
      (h : restoreAuthorityRecord text revision revoked = .ok g) : Reachable g

structure Valid (g : Grant) : Prop where
  standing : Standing g.revision g.revoked
  taskRevision : 0 < g.taskRevision ∧ g.taskRevision ≤ maxStoredInteger
  expiresAt : 0 < g.expiresAt ∧ g.expiresAt ≤ maxStoredInteger

theorem Valid.revoke {g : Grant} (h : g.Valid) :
    g.revoke = (.ok (), { g with revision := 2, revoked := true }) ∧ g.revoke.2.Valid := by
  have hr : g.revoke = (.ok (), { g with revision := 2, revoked := true }) := by
    rw [Grant.revoke, h.standing.revoke]
  rw [hr]
  exact ⟨rfl, .inr ⟨rfl, rfl⟩, h.taskRevision, h.expiresAt⟩

variable {g : Grant} {text : String} {revision : Nat} {revoked : Bool}

theorem read_state {v : Json.Value} (h : read revision revoked v = some g) :
    g.revision = revision ∧ g.revoked = revoked := by
  simp only [read, Option.bind_eq_bind, Option.bind_eq_some_iff, Option.pure_def, Option.some.injEq] at h
  obtain ⟨_, -, _, -, _, -, _, -, _, -, rfl⟩ := h
  exact ⟨rfl, rfl⟩

theorem restore_valid (h : restoreAuthorityRecord text revision revoked = .ok g) : g.Valid := by
  simp only [restoreAuthorityRecord, bind_eq_ok, exists_unit, storedNumber_ok, pure_eq_ok, Records.state_ok] at h
  obtain ⟨raw, hd, hs, ht, he, rfl⟩ := h
  obtain ⟨_, hd⟩ := Records.decode_ok hd
  obtain ⟨rfl, rfl⟩ := read_state hd
  exact ⟨hs, ht, he⟩

theorem Reachable.valid [Hashes] (h : g.Reachable) : g.Valid := by
  induction h with
  | @approve id r reviewed s t e g hr h =>
    obtain ⟨-, -, -, -, -, -, h⟩ := approve_ok.mp h
    rw [h]
    exact ⟨.inl ⟨rfl, rfl⟩, t.stored, hr.valid.input.deadline⟩
  | revoke _ ih => exact ih.revoke.2
  | restore h => exact restore_valid h

theorem record_size (h : g.Valid) : (Records.envelope "grant" g.toJson).render.utf8ByteSize ≤ maxRecordBytes := by
  have := g.id.width_le
  have := g.request.width
  have := stored_width h.taskRevision.2
  have := stored_width h.expiresAt.2
  have hk : Json.keysWidth ["id", "request", "task_revision", "expires_at"] ≤ 100 := by decide
  have : Json.width g.toJson.chars ≤ 400 := by
    refine Nat.le_trans (Json.width_obj _) ?_
    simp only [List.map_cons, List.map_nil, Json.valuesWidth, List.sum_cons, List.sum_nil]
    omega
  have := Records.envelope_size "grant" g.toJson (show _ ≤ 20 by decide) this
  simp only [maxRecordBytes]; omega

theorem read_toJson (h : g.Valid) : read g.revision g.revoked g.toJson = some g := by
  refine Records.fields_bind rfl rfl (by decide) fun f hm => ?_
  simp only [Records.FieldsOf, List.forall_mem_cons] at hm
  simp only [hm, Records.some_bind, Records.id_text, Records.digest_toHex, Records.u64_num
    (stored_lt h.taskRevision.2), Records.u64_num (stored_lt h.expiresAt.2)]
  rfl

theorem restore_record (h : g.Valid) :
    ∃ text, g.authorityRecord = .ok text ∧ restoreAuthorityRecord text g.revision g.revoked = .ok g := by
  have he : g.authorityRecord = .ok _ := Records.encode_ok.mpr ⟨record_size h, rfl⟩
  refine ⟨_, he, ?_⟩
  simp only [restoreAuthorityRecord, bind_eq_ok, exists_unit, storedNumber_ok, Records.state_ok, pure_eq_ok]
  exact ⟨g, Records.decode_encode he (read_toJson h), h.standing, h.taskRevision, h.expiresAt, rfl⟩

end Grant

/-! ## Runs -/

namespace Run

inductive Reachable : Run → Prop
  | register {a : ManagedActor} {g : Grant} {r : WorkRequest} {t : TaskRepository} {x : Nat} {e : Environment} {n : Run}
      (h : register a g r t x e = .ok n) : Reachable n
  | revoke {n : Run} (hn : Reachable n) : Reachable n.revoke.2
  | restore {text : String} {revision : Nat} {revoked : Bool} {n : Run}
      (h : restoreAuthorityRecord text revision revoked = .ok n) : Reachable n

structure Valid (n : Run) : Prop where
  standing : Standing n.revision n.revoked
  issuerRevision : 0 < n.issuerRevision ∧ n.issuerRevision ≤ maxStoredInteger
  expiresAt : 0 < n.expiresAt ∧ n.expiresAt ≤ maxStoredInteger

theorem Valid.revoke {n : Run} (h : n.Valid) :
    n.revoke = (.ok (), { n with revision := 2, revoked := true }) ∧ n.revoke.2.Valid := by
  have hr : n.revoke = (.ok (), { n with revision := 2, revoked := true }) := by
    rw [Run.revoke, h.standing.revoke]
  rw [hr]
  exact ⟨rfl, .inr ⟨rfl, rfl⟩, h.issuerRevision, h.expiresAt⟩

variable {n : Run} {text : String} {revision : Nat} {revoked : Bool}

theorem read_state {v : Json.Value} (h : read revision revoked v = some n) :
    n.revision = revision ∧ n.revoked = revoked := by
  simp only [read, Option.bind_eq_bind, Option.bind_eq_some_iff, Option.pure_def, Option.some.injEq] at h
  obtain ⟨_, -, _, -, _, -, _, -, _, -, _, -, _, -, _, -, _, -, _, -, rfl⟩ := h
  exact ⟨rfl, rfl⟩

theorem restore_valid (h : restoreAuthorityRecord text revision revoked = .ok n) : n.Valid := by
  simp only [restoreAuthorityRecord, bind_eq_ok, exists_unit, storedNumber_ok, pure_eq_ok, Records.state_ok] at h
  obtain ⟨raw, hd, hs, hi, he, rfl⟩ := h
  obtain ⟨_, hd⟩ := Records.decode_ok hd
  obtain ⟨rfl, rfl⟩ := read_state hd
  exact ⟨hs, hi, he⟩

theorem Reachable.valid (h : n.Reachable) : n.Valid := by
  induction h with
  | @register a g r t x e n h =>
    obtain ⟨-, -, -, hd, -, rfl⟩ := register_ok.mp h
    exact ⟨.inl ⟨rfl, rfl⟩, a.stored.1, (deadline_ok.mp hd).2.1⟩
  | revoke _ ih => exact ih.revoke.2
  | restore h => exact restore_valid h

theorem record_size (h : n.Valid) : (Records.envelope "run" n.toJson).render.utf8ByteSize ≤ maxRecordBytes := by
  have := n.id.width_le; have := n.grant.width_le; have := n.issuer.width_le
  have := n.client.width_le; have := n.workload.width_le
  have := n.request.width; have := n.proofKey.width
  have := stored_width h.issuerRevision.2; have := stored_width h.expiresAt.2
  have hk : Json.keysWidth ["id", "grant", "request", "issuer", "issuer_revision", "client", "workload", "proof_key",
    "expires_at"] ≤ 200 := by decide
  have : Json.width n.toJson.chars ≤ 1100 := by
    refine Nat.le_trans (Json.width_obj _) ?_
    simp only [List.map_cons, List.map_nil, Json.valuesWidth, List.sum_cons, List.sum_nil]
    omega
  have := Records.envelope_size "run" n.toJson (show _ ≤ 20 by decide) this
  simp only [maxRecordBytes]; omega

theorem read_toJson (h : n.Valid) : read n.revision n.revoked n.toJson = some n := by
  refine Records.fields_bind rfl rfl (by decide) fun f hm => ?_
  simp only [Records.FieldsOf, List.forall_mem_cons] at hm
  simp only [hm, Records.some_bind, Records.id_text, Records.digest_toHex, Records.u64_num
    (stored_lt h.issuerRevision.2), Records.u64_num (stored_lt h.expiresAt.2)]
  rfl

theorem restore_record (h : n.Valid) :
    ∃ text, n.authorityRecord = .ok text ∧ restoreAuthorityRecord text n.revision n.revoked = .ok n := by
  have he : n.authorityRecord = .ok _ := Records.encode_ok.mpr ⟨record_size h, rfl⟩
  refine ⟨_, he, ?_⟩
  simp only [restoreAuthorityRecord, bind_eq_ok, exists_unit, storedNumber_ok, Records.state_ok, pure_eq_ok]
  exact ⟨n, Records.decode_encode he (read_toJson h), h.standing, h.issuerRevision, h.expiresAt, rfl⟩

end Run

/-! ## Candidates -/

namespace ProducerRevision

structure Stored (p : ProducerRevision) : Prop where
  grant : 0 < p.grantRevision ∧ p.grantRevision ≤ maxStoredInteger
  run : 0 < p.runRevision ∧ p.runRevision ≤ maxStoredInteger

variable {p : ProducerRevision}

theorem checkStored_ok {x : Unit} : p.checkStored = .ok x ↔ p.Stored := by
  simp only [checkStored, check_bind_eq_ok, storedNumber_ok]
  exact ⟨fun h => ⟨h.1, h.2⟩, fun h => ⟨h.grant, h.run⟩⟩

theorem read_toJson (h : p.Stored) : read p.toJson = some p := by
  refine Records.fields_bind rfl rfl (by decide) fun f hm => ?_
  simp only [Records.FieldsOf, List.forall_mem_cons] at hm
  simp only [hm, Records.some_bind, Records.id_text, Records.u64_num
    (stored_lt h.grant.2), Records.u64_num (stored_lt h.run.2)]
  rfl

theorem toJson_width (h : p.Stored) : Json.width p.toJson.chars ≤ 400 := by
  have := p.grant.width_le; have := p.run.width_le
  have := stored_width h.grant.2; have := stored_width h.run.2
  have hk : Json.keysWidth ["grant", "grant_revision", "run", "run_revision"] ≤ 60 := by decide
  refine Nat.le_trans (Json.width_obj _) ?_
  simp only [List.map_cons, List.map_nil, Json.valuesWidth, List.sum_cons, List.sum_nil]
  omega

end ProducerRevision

namespace SubmissionGuard

/-- What restoring a guard asks for. -/
structure Restores (guard : SubmissionGuard) (r : WorkRequest) (g : Grant) (n : Run) : Prop where
  request : guard.owner = r.owner ∧ guard.ownerEpoch = r.ownerEpoch ∧ guard.policyRevision = r.policyRevision ∧
    guard.request = r.digest ∧ guard.requestRevision = r.revision
  producer : guard.producer.sameProducer g n ∧ guard.producer.grantRevision = 1 ∧ guard.producer.runRevision = 1
  bound : g.request = r.digest ∧ n.request = r.digest ∧ guard.proofKey = n.proofKey
  task : guard.task.text = r.input.taskRepository ∧ guard.taskRevision = g.taskRevision ∧
    Digest.parseHex r.input.disclosureDigest = .ok guard.disclosure
  target : guard.adoptionRepository = r.input.adoptionRepository ∧ guard.adoptionRef = r.input.adoptionRef ∧
    guard.expectedHead = r.input.expectedHead ∧ guard.gitOidLength = r.input.baseCommit.utf8ByteSize
  expires : guard.expiresAt = min n.expiresAt g.expiresAt
  stored : (0 < guard.authenticationExpires ∧ guard.authenticationExpires ≤ maxStoredInteger) ∧
    0 < guard.expiresAt ∧ guard.expiresAt ≤ maxStoredInteger

variable {guard : SubmissionGuard} {r : WorkRequest} {g : Grant} {n : Run}

theorem restore_ok {guard' : SubmissionGuard} : guard.restore r g n = .ok guard' ↔ guard.Restores r g n ∧ guard = guard' := by
  simp only [restore, bind_eq_ok, exists_unit, denyIf_eq_ok, storedNumber_ok, pure_eq_ok, not_or, ne_eq,
    Decidable.not_not]
  constructor
  · rintro ⟨⟨h₁, h₂, h₃, h₄, h₅, hp, h₆, h₇, h₈, h₉, hk, h₁₀, h₁₁⟩, d, hd, ⟨rfl, h₁₂, h₁₃, h₁₄, h₁₅, hx⟩, ha, he, rfl⟩
    exact ⟨⟨⟨h₁, h₂, h₃, h₄, h₅⟩, ⟨hp, h₆, h₇⟩, ⟨h₈, h₉, hk⟩, ⟨h₁₀, h₁₁, hd⟩, ⟨h₁₂, h₁₃, h₁₄, h₁₅⟩, hx, ha, he⟩, rfl⟩
  · rintro ⟨⟨⟨h₁, h₂, h₃, h₄, h₅⟩, ⟨hp, h₆, h₇⟩, ⟨h₈, h₉, hk⟩, ⟨h₁₀, h₁₁, hd⟩, ⟨h₁₂, h₁₃, h₁₄, h₁₅⟩, hx, ha, he⟩, rfl⟩
    exact ⟨⟨h₁, h₂, h₃, h₄, h₅, hp, h₆, h₇, h₈, h₉, hk, h₁₀, h₁₁⟩, _, hd, ⟨rfl, h₁₂, h₁₃, h₁₄, h₁₅, hx⟩, ha, he, rfl⟩

/-- An issued guard restores, whatever happens to its grant and run later. -/
theorem restores_of_authorize [Hashes] {action : String} {a : ManagedActor} {t : TaskRepository} {e : Environment}
    (hg : g.Valid) (hn : n.Valid) (h : n.authorizeSubmission action g r a t e = .ok guard) : guard.Restores r g n := by
  obtain ⟨-, hc, hr, -, hd, ⟨hp, -, -, -, -, -, -, hk⟩, rfl⟩ := Run.authorizeSubmission_ok.mp h
  obtain ⟨hrc, hgr, -, hgd, ht, hv⟩ := Grant.check_ok.mp hc
  obtain ⟨-, hpol, -⟩ := WorkRequest.check_ok.mp hrc
  obtain ⟨-, -, hti, htd⟩ := TaskRepository.check_ok ht
  have := hn.expiresAt; have := hg.expiresAt
  exact {
    request := ⟨rfl, rfl, hpol.symm, rfl, rfl⟩
    producer := ⟨⟨rfl, rfl, hp⟩, hg.standing.unrevoked hgr, hn.standing.unrevoked hr⟩
    bound := ⟨hgd, hd, hk⟩
    task := ⟨hti, hv, htd⟩
    target := ⟨rfl, rfl, rfl, rfl⟩
    expires := rfl
    stored := ⟨a.stored.2, by simp only; omega, by simp only; omega⟩ }

/-- Only identity and request bind a guard to its producer, so that a revoked one still restores it. -/
theorem Restores.producer_changed {g' : Grant} {n' : Run} (h : guard.Restores r g n)
    (hg : g'.id = g.id ∧ g'.request = g.request ∧ g'.taskRevision = g.taskRevision ∧ g'.expiresAt = g.expiresAt)
    (hn : n'.id = n.id ∧ n'.grant = n.grant ∧ n'.request = n.request ∧ n'.proofKey = n.proofKey ∧
      n'.expiresAt = n.expiresAt) : guard.Restores r g' n' := by
  obtain ⟨hg₁, hg₂, hg₃, hg₄⟩ := hg
  obtain ⟨hn₁, hn₂, hn₃, hn₄, hn₅⟩ := hn
  obtain ⟨hr, ⟨⟨hp₁, hp₂, hp₃⟩, hp⟩, ⟨hb₁, hb₂, hb₃⟩, ⟨ht₁, ht₂, ht₃⟩, ha, hx, hs⟩ := h
  exact ⟨hr, ⟨⟨hp₁.trans hg₁.symm, hp₂.trans hn₁.symm, (hn₂.trans hp₃).trans hg₁.symm⟩, hp⟩,
    ⟨hg₂.trans hb₁, hn₃.trans hb₂, hb₃.trans hn₄.symm⟩, ⟨ht₁, ht₂.trans hg₃.symm, ht₃⟩, ha, by rw [hx, hg₄, hn₅], hs⟩

theorem Restores.producerStored (h : guard.Restores r g n) : guard.producer.Stored :=
  ⟨by rw [h.producer.2.1]; decide, by rw [h.producer.2.2]; decide⟩

variable [Hashes]

theorem Restores.revision_le (hr : r.Valid) (h : guard.Restores r g n) : guard.requestRevision ≤ maxStoredInteger :=
  Nat.le_trans (Nat.le_of_eq h.request.2.2.2.2) hr.input.revision.2

theorem length_le (hr : r.Valid) (h : guard.Restores r g n) : guard.gitOidLength ≤ maxStoredInteger := by
  have := hr.input.baseCommit.1
  rw [h.target.2.2.2, maxStoredInteger]; omega

theorem read_toJson (hr : r.Valid) (hg : g.Valid) (h : guard.Restores r g n) : read guard.toJson = some guard := by
  have h₁ : guard.ownerEpoch < 2 ^ 64 := h.request.2.1 ▸ stored_lt hr.ownerEpoch
  have h₂ : guard.policyRevision < 2 ^ 64 := h.request.2.2.1 ▸ stored_lt hr.policyRevision.2
  have h₃ : guard.requestRevision < 2 ^ 64 := stored_lt (h.revision_le hr)
  have h₄ : guard.taskRevision < 2 ^ 64 := h.task.2.1 ▸ stored_lt hg.taskRevision.2
  refine Records.fields_bind rfl rfl (by decide) fun f hm => ?_
  simp only [Records.FieldsOf, List.forall_mem_cons] at hm
  simp only [hm, Records.some_bind, Records.id_text, Records.digest_toHex, Records.string_str, Records.u64_num h₁,
    Records.u64_num h₂, Records.u64_num h₃, Records.u64_num h₄, Records.u64_num (stored_lt h.stored.1.2),
    Records.u64_num (stored_lt h.stored.2.2), Records.u64_num (stored_lt (length_le hr h)),
    ProducerRevision.read_toJson h.producerStored]
  rfl

theorem toJson_width (hr : r.Valid) (hg : g.Valid) (h : guard.Restores r g n) :
    Json.width guard.toJson.chars ≤ 2500 := by
  have := guard.owner.width_le; have := guard.task.width_le
  have := guard.request.width; have := guard.disclosure.width; have := guard.proofKey.width
  have := stored_width (h.request.2.1 ▸ hr.ownerEpoch)
  have := stored_width (h.request.2.2.1 ▸ hr.policyRevision.2)
  have := stored_width (h.revision_le hr)
  have := stored_width (h.task.2.1 ▸ hg.taskRevision.2)
  have := stored_width h.stored.1.2; have := stored_width h.stored.2.2; have := stored_width (length_le hr h)
  have := ProducerRevision.toJson_width h.producerStored
  have := RequestInput.id_width (h.target.1 ▸ hr.input.adoptionRepository)
  have := RequestInput.branchRef_width (h.target.2.1 ▸ hr.input.adoptionRef)
  have := RequestInput.oid_width (h.target.2.2.1 ▸ hr.input.expectedHead)
  have hk : Json.keysWidth names ≤ 300 := by decide
  refine Nat.le_trans (Json.width_obj _) ?_
  simp only [names] at hk
  simp only [List.map_cons, List.map_nil, Json.valuesWidth, List.sum_cons, List.sum_nil]
  omega

end SubmissionGuard

namespace Candidate

variable [Hashes]

/-- A candidate, against its request and the current values of its grant and run. -/
inductive Reachable : WorkRequest → Grant → Run → Candidate → Prop
  | confirm {r : WorkRequest} {g : Grant} {n : Run} {action : String} {a : ManagedActor} {t : TaskRepository}
      {e : Environment} {guard current : SubmissionGuard} {i : CandidateInput} {p : PreparedCandidate} {c : Candidate}
      (hr : r.Reachable) (hg : g.Reachable) (hn : n.Reachable)
      (ha : n.authorizeSubmission action g r a t e = .ok guard) (hp : guard.prepareCandidate i = .ok p)
      (hc : p.confirm current = .ok c) : Reachable r g n c
  | revokeGrant {r : WorkRequest} {g : Grant} {n : Run} {c : Candidate} (h : Reachable r g n c) :
      Reachable r g.revoke.2 n c
  | revokeRun {r : WorkRequest} {g : Grant} {n : Run} {c : Candidate} (h : Reachable r g n c) :
      Reachable r g n.revoke.2 c
  | restore {text : String} {r : WorkRequest} {g : Grant} {n : Run} {c : Candidate} (hr : r.Reachable)
      (hg : g.Reachable) (hn : n.Reachable) (h : restoreAuthorityRecord text r g n = .ok c) : Reachable r g n c

structure Valid (r : WorkRequest) (g : Grant) (n : Run) (c : Candidate) : Prop where
  request : r.Valid
  grant : g.Valid
  run : n.Valid
  restores : c.provenance.Restores r g n
  prepared : c.provenance.prepareCandidate { commit := c.commit, tree := c.tree, evidence := c.evidence } =
    .ok { guard := c.provenance, candidate := c }

variable {r : WorkRequest} {g : Grant} {n : Run} {c : Candidate}

/-- Preparing a candidate's own inputs again gives the same candidate. -/
theorem prepare_again {guard : SubmissionGuard} {i : CandidateInput} {p : PreparedCandidate}
    (h : guard.prepareCandidate i = .ok p) : p.guard = guard ∧ p.candidate.provenance = guard ∧
      p.candidate.provenance.prepareCandidate
        { commit := p.candidate.commit, tree := p.candidate.tree, evidence := p.candidate.evidence } =
        .ok { guard := p.candidate.provenance, candidate := p.candidate } := by
  obtain ⟨hc, ht, hl, rfl⟩ := SubmissionGuard.prepareCandidate_ok.mp h
  exact ⟨rfl, rfl, SubmissionGuard.prepareCandidate_ok.mpr ⟨hc, ht, hl, rfl⟩⟩

theorem restore_ok {text : String} (h : restoreAuthorityRecord text r g n = .ok c) :
    c.provenance.Restores r g n ∧
      c.provenance.prepareCandidate { commit := c.commit, tree := c.tree, evidence := c.evidence } =
        .ok { guard := c.provenance, candidate := c } := by
  simp only [restoreAuthorityRecord, bind_eq_ok, exists_unit, pure_eq_ok, SubmissionGuard.restore_ok,
    PreparedCandidate.confirm_ok] at h
  obtain ⟨raw, -, guard, ⟨hr, rfl⟩, p, hp, c', ⟨-, rfl⟩, -, rfl⟩ := h
  obtain ⟨-, he, h⟩ := prepare_again hp
  exact ⟨he ▸ hr, h⟩

theorem Reachable.valid (h : Reachable r g n c) : Valid r g n c := by
  induction h with
  | confirm hr hg hn ha hp hc =>
    obtain ⟨-, rfl⟩ := PreparedCandidate.confirm_ok.mp hc
    obtain ⟨-, he, h⟩ := prepare_again hp
    exact ⟨hr.valid, hg.valid, hn.valid, he ▸ SubmissionGuard.restores_of_authorize hg.valid hn.valid ha, h⟩
  | @revokeGrant r g n c _ ih =>
    refine ⟨ih.request, ih.grant.revoke.2, ih.run, ?_, ih.prepared⟩
    exact ih.restores.producer_changed ⟨rfl, rfl, rfl, rfl⟩ ⟨rfl, rfl, rfl, rfl, rfl⟩
  | @revokeRun r g n c _ ih =>
    refine ⟨ih.request, ih.grant, ih.run.revoke.2, ?_, ih.prepared⟩
    exact ih.restores.producer_changed ⟨rfl, rfl, rfl, rfl⟩ ⟨rfl, rfl, rfl, rfl, rfl⟩
  | restore hr hg hn h => exact ⟨hr.valid, hg.valid, hn.valid, (restore_ok h).1, (restore_ok h).2⟩

/-- The fields a candidate repeats from its guard. -/
theorem Valid.fields (h : Valid r g n c) :
    ((c.commit.utf8ByteSize = 40 ∨ c.commit.utf8ByteSize = 64) ∧ lowerHex c.commit = true) ∧
      ((c.tree.utf8ByteSize = 40 ∨ c.tree.utf8ByteSize = 64) ∧ lowerHex c.tree = true) ∧
      c.commit.utf8ByteSize = c.provenance.gitOidLength ∧ c.owner = c.provenance.owner ∧
      c.producer = c.provenance.producer ∧ c.request = c.provenance.request ∧
      c.adoptionRepository = c.provenance.adoptionRepository ∧ c.adoptionRef = c.provenance.adoptionRef ∧
      c.expectedHead = c.provenance.expectedHead := by
  obtain ⟨hc, ht, hl, he⟩ := SubmissionGuard.prepareCandidate_ok.mp h.prepared
  have hc' := congrArg PreparedCandidate.candidate he
  exact ⟨hc, ht, hl.1, (congrArg Candidate.owner hc').symm, (congrArg Candidate.producer hc').symm,
    (congrArg Candidate.request hc').symm, (congrArg Candidate.adoptionRepository hc').symm,
    (congrArg Candidate.adoptionRef hc').symm, (congrArg Candidate.expectedHead hc').symm⟩

theorem record_size (h : Valid r g n c) :
    (Records.envelope "candidate" c.toJson).render.utf8ByteSize ≤ maxRecordBytes := by
  obtain ⟨hc, ht, -, -, hp, -, hr, hf, he⟩ := h.fields
  have := SubmissionGuard.toJson_width h.request h.grant h.restores
  have := ProducerRevision.toJson_width (hp ▸ h.restores.producerStored)
  have := c.owner.width_le; have := c.request.width; have := c.evidence.width; have := c.digest.width
  have := RequestInput.oid_width hc; have := RequestInput.oid_width ht
  have := RequestInput.id_width (hr.trans h.restores.target.1 ▸ h.request.input.adoptionRepository)
  have := RequestInput.branchRef_width (hf.trans h.restores.target.2.1 ▸ h.request.input.adoptionRef)
  have := RequestInput.oid_width (he.trans h.restores.target.2.2.1 ▸ h.request.input.expectedHead)
  have hk : Json.keysWidth ["provenance", "owner", "producer", "request", "adoption_repository", "adoption_ref",
    "expected_head", "commit", "tree", "evidence", "digest"] ≤ 200 := by decide
  have : Json.width c.toJson.chars ≤ 5000 := by
    refine Nat.le_trans (Json.width_obj _) ?_
    simp only [List.map_cons, List.map_nil, Json.valuesWidth, List.sum_cons, List.sum_nil]
    omega
  have := Records.envelope_size "candidate" c.toJson (show _ ≤ 20 by decide) this
  simp only [maxRecordBytes]; omega

theorem read_toJson (h : Valid r g n c) : read c.toJson = some c := by
  have hs : c.producer.Stored := by
    obtain ⟨-, -, -, -, hp, -⟩ := h.fields
    exact hp ▸ h.restores.producerStored
  refine Records.fields_bind rfl rfl (by decide) fun f hm => ?_
  simp only [Records.FieldsOf, List.forall_mem_cons] at hm
  simp only [hm, Records.some_bind, Records.id_text, Records.digest_toHex, Records.string_str,
    ProducerRevision.read_toJson hs, SubmissionGuard.read_toJson h.request h.grant h.restores]
  rfl

theorem restore_record (h : Valid r g n c) :
    ∃ text, c.authorityRecord = .ok text ∧ restoreAuthorityRecord text r g n = .ok c := by
  have he : c.authorityRecord = .ok _ := Records.encode_ok.mpr ⟨record_size h, rfl⟩
  refine ⟨_, he, ?_⟩
  simp only [restoreAuthorityRecord, bind_eq_ok, exists_unit, pure_eq_ok, SubmissionGuard.restore_ok,
    PreparedCandidate.confirm_ok, denyIf_eq_ok, not_or, ne_eq, Decidable.not_not]
  exact ⟨c, Records.decode_encode he (read_toJson h), c.provenance, ⟨h.restores, rfl⟩, _, h.prepared, c, ⟨rfl, rfl⟩,
    ⟨rfl, rfl, rfl, rfl, rfl, rfl, rfl⟩, rfl⟩

end Candidate

end Mikaki
