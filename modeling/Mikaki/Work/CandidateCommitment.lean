import Mikaki.Work.AdoptionRecordsSound
import Mikaki.Work.Commitments

/-!
# What a candidate's digest commits to

The digest covers the read set that speaks of the producer and the payload. The
target, the recipient and the workload are in it through the digest of the
request. Where SHA-256 does not collide on the preimages, one digest is the
digest of one result.
-/

namespace Mikaki

open Checks Framing Hash

/-! ## The preimage -/

namespace Candidate

def preimage (self : Candidate) : List UInt8 := self.provenance.preimage self.commit self.tree self.evidence

/-- What stands in a preimage fits its fields. -/
structure Fits (c : Candidate) : Prop where
  ownerEpoch : c.provenance.ownerEpoch < 2 ^ 64
  policyRevision : c.provenance.policyRevision < 2 ^ 64
  grantRevision : c.provenance.producer.grantRevision < 2 ^ 64
  runRevision : c.provenance.producer.runRevision < 2 ^ 64
  taskRevision : c.provenance.taskRevision < 2 ^ 64
  commit : c.commit.utf8ByteSize < 2 ^ 64
  tree : c.tree.utf8ByteSize < 2 ^ 64

theorem reads_preimage : Reads Fits preimage fun c =>
    (c.provenance.request, c.provenance.owner, c.provenance.ownerEpoch, c.provenance.policyRevision, c.provenance.producer,
      c.provenance.proofKey, c.provenance.task, c.provenance.taskRevision, c.provenance.disclosure, c.commit, c.tree,
      c.evidence) := by
  have h := (Reads.const (P := Fits) (Hash.new "mikaki.work-candidate.v1"))
    |>.field reads_digest (·.provenance.request) (fun _ => trivial)
    |>.field reads_id (·.provenance.owner) (fun _ => trivial)
    |>.field reads_number (·.provenance.ownerEpoch) Fits.ownerEpoch
    |>.field reads_number (·.provenance.policyRevision) Fits.policyRevision
    |>.field reads_id (·.provenance.producer.grant) (fun _ => trivial)
    |>.field reads_number (·.provenance.producer.grantRevision) Fits.grantRevision
    |>.field reads_id (·.provenance.producer.run) (fun _ => trivial)
    |>.field reads_number (·.provenance.producer.runRevision) Fits.runRevision
    |>.field reads_digest (·.provenance.proofKey) (fun _ => trivial)
    |>.field reads_id (·.provenance.task) (fun _ => trivial)
    |>.field reads_number (·.provenance.taskRevision) Fits.taskRevision
    |>.field reads_digest (·.provenance.disclosure) (fun _ => trivial)
    |>.field reads_text (·.commit) Fits.commit
    |>.field reads_text (·.tree) Fits.tree
    |>.field reads_digest (·.evidence) (fun _ => trivial)
  refine h.map fun a b _ _ e => ?_
  obtain ⟨⟨_, _, _, _, _, ⟨_, _, _, _⟩, _, _, _, _, _, _, _, _, _, _⟩, _, _, _, _, _, _, _, _, _, _⟩ := a
  obtain ⟨⟨_, _, _, _, _, ⟨_, _, _, _⟩, _, _, _, _, _, _, _, _, _, _⟩, _, _, _, _, _, _, _, _, _, _⟩ := b
  simp only [Prod.mk.injEq] at e
  simp [e]

/-- Two candidates of one result: of one producer for one request, with one target and one payload. -/
structure SameResult (c d : Candidate) : Prop where
  request : c.request = d.request
  owner : c.owner = d.owner
  producer : c.producer = d.producer
  proofKey : c.provenance.proofKey = d.provenance.proofKey
  task : c.provenance.task = d.provenance.task ∧ c.provenance.taskRevision = d.provenance.taskRevision
  disclosure : c.provenance.disclosure = d.provenance.disclosure
  adoption : c.adoptionRepository = d.adoptionRepository ∧ c.adoptionRef = d.adoptionRef ∧ c.expectedHead = d.expectedHead
  payload : c.commit = d.commit ∧ c.tree = d.tree ∧ c.evidence = d.evidence

section
variable [Hashes] {r : WorkRequest} {g : Grant} {n : Run} {c : Candidate}

theorem Valid.fits (h : Valid r g n c) : c.Fits := by
  obtain ⟨⟨hc, -⟩, ⟨ht, -⟩, -⟩ := h.fields
  have hp := h.restores.producerStored
  exact {
    ownerEpoch := h.restores.request.2.1 ▸ stored_lt h.request.ownerEpoch
    policyRevision := h.restores.request.2.2.1 ▸ stored_lt h.request.policyRevision.2
    grantRevision := stored_lt hp.grant.2
    runRevision := stored_lt hp.run.2
    taskRevision := h.restores.task.2.1 ▸ stored_lt h.grant.taskRevision.2
    commit := by omega
    tree := by omega }

theorem Valid.digest_eq (h : Valid r g n c) : c.digest = sha256 c.preimage := by
  obtain ⟨-, -, -, he⟩ := SubmissionGuard.prepareCandidate_ok.mp h.prepared
  exact (congrArg (fun p => p.candidate.digest) he).symm

/-- The request is committed to with all it says, and with it the target. -/
theorem Valid.same {r' : WorkRequest} {g' : Grant} {n' : Run} {d : Candidate} (h : Valid r g n c) (h' : Valid r' g' n' d)
    (free : Set.InjOn sha256 {c.preimage, d.preimage}) (freeRequest : Set.InjOn sha256 {r.preimage, r'.preimage})
    (e : c.digest = d.digest) : c.SameResult d ∧ r = r' := by
  have hpreimage : c.preimage = d.preimage := by
    rw [h.digest_eq, h'.digest_eq] at e
    exact free (by simp) (by simp) e
  have hread := reads_preimage.eq h.fits h'.fits hpreimage
  simp only [Prod.mk.injEq] at hread
  obtain ⟨hrequest, howner, -, -, hproducer, hkey, htask, htaskRevision, hdisclosure, hpayload⟩ := hread
  have hr : r = r' := by
    rw [h.restores.request.2.2.2.1, h'.restores.request.2.2.2.1, h.request.digest_eq, h'.request.digest_eq] at hrequest
    exact WorkRequest.preimage_inj h.request h'.request (freeRequest (by simp) (by simp) hrequest)
  obtain ⟨-, -, -, ho, hp, hq, hrepository, href, hhead⟩ := h.fields
  obtain ⟨-, -, -, ho', hp', hq', hrepository', href', hhead'⟩ := h'.fields
  obtain ⟨ha, hb, hc, -⟩ := h.restores.target
  obtain ⟨ha', hb', hc', -⟩ := h'.restores.target
  refine ⟨⟨?_, ?_, ?_, hkey, ⟨htask, htaskRevision⟩, hdisclosure, ⟨?_, ?_, ?_⟩, hpayload⟩, hr⟩
  · rw [hq, hq', hrequest]
  · rw [ho, ho', howner]
  · rw [hp, hp', hproducer]
  · rw [hrepository, hrepository', ha, ha', hr]
  · rw [href, href', hb, hb', hr]
  · rw [hhead, hhead', hc, hc', hr]

end

end Candidate

/-! ## Who submits -/

namespace Run

/-- A run that was registered for a request, whatever became of it since. -/
inductive Registered (r : WorkRequest) : Run → Prop
  | register {a : ManagedActor} {g : Grant} {t : TaskRepository} {x : Nat} {e : Environment} {n : Run}
      (h : Run.register a g r t x e = .ok n) : Registered r n
  | revoke {n : Run} (h : Registered r n) : Registered r n.revoke.2
  | restore {n m : Run} {text : String} {revision : Nat} {revoked : Bool} (h : Registered r n)
      (ht : n.authorityRecord = .ok text) (hm : restoreAuthorityRecord text revision revoked = .ok m) : Registered r m

variable {r : WorkRequest} {n : Run}

theorem Registered.reachable (h : n.Registered r) : n.Reachable := by
  induction h with
  | register h => exact .register h
  | revoke _ ih => exact .revoke ih
  | restore _ _ hm _ => exact .restore hm

theorem read_again {revision : Nat} {revoked : Bool} {m : Run} (h : n.Valid) (hm : read revision revoked n.toJson = some m) :
    m = { n with revision, revoked } := by
  have hr : read revision revoked n.toJson = some { n with revision, revoked } := by
    refine Records.fields_bind rfl rfl (by decide) fun f hf => ?_
    simp only [Records.FieldsOf, List.forall_mem_cons] at hf
    simp only [hf, Records.some_bind, Records.id_text, Records.digest_toHex, Records.u64_num
      (stored_lt h.issuerRevision.2), Records.u64_num (stored_lt h.expiresAt.2)]
    rfl
  exact Option.some.inj (hm.symm.trans hr)

/-- The client and the workload of a run are those that its request names. -/
theorem Registered.named (h : n.Registered r) : n.client.text = r.input.recipient ∧ n.workload.text = r.input.workload := by
  induction h with
  | register h =>
    obtain ⟨-, -, ⟨-, hclient, hworkload⟩, -, -, rfl⟩ := register_ok.mp h
    exact ⟨hclient, hworkload⟩
  | revoke _ ih => exact ih
  | @restore n m text revision revoked h ht hm ih =>
    simp only [restoreAuthorityRecord, bind_eq_ok, exists_unit, pure_eq_ok] at hm
    obtain ⟨raw, hd, -, -, -, rfl⟩ := hm
    rw [read_again h.reachable.valid (Records.decode_encode_inv ht hd)]
    exact ih

end Run

/-- Candidates with one digest are of one result: the same request in the hands of the same owner, producer, client and
workload, for the same target and with the same payload. -/
theorem Candidate.candidate_commits [Hashes] {r r' : WorkRequest} {g g' : Grant} {n n' : Run} {c d : Candidate}
    (h : Candidate.Reachable r g n c) (h' : Candidate.Reachable r' g' n' d)
    (free : Set.InjOn sha256 {c.preimage, d.preimage}) (freeRequest : Set.InjOn sha256 {r.preimage, r'.preimage})
    (e : c.digest = d.digest) : c.SameResult d ∧ r = r' ∧ (g.id = g'.id ∧ n.id = n'.id ∧ n.proofKey = n'.proofKey) ∧
      (n.Registered r → n'.Registered r' → n.client = n'.client ∧ n.workload = n'.workload) := by
  obtain ⟨hsame, hr⟩ := h.valid.same h'.valid free freeRequest e
  obtain ⟨-, -, -, -, hp, -⟩ := h.valid.fields
  obtain ⟨-, -, -, -, hp', -⟩ := h'.valid.fields
  obtain ⟨⟨⟨hg, hn, -⟩, -⟩, -, -, hk⟩ := And.intro h.valid.restores.producer h.valid.restores.bound
  obtain ⟨⟨⟨hg', hn', -⟩, -⟩, -, -, hk'⟩ := And.intro h'.valid.restores.producer h'.valid.restores.bound
  have hproducer : c.provenance.producer = d.provenance.producer := by rw [← hp, ← hp', hsame.producer]
  refine ⟨hsame, hr, ⟨?_, ?_, ?_⟩, fun hn hn' => ?_⟩
  · rw [← hg, ← hg', hproducer]
  · rw [← hn, ← hn', hproducer]
  · rw [← hk, ← hk', hsame.proofKey]
  · obtain ⟨hclient, hworkload⟩ := hn.named
    obtain ⟨hclient', hworkload'⟩ := hn'.named
    rw [← hr] at hclient' hworkload'
    exact ⟨Id.ext_text (hclient.trans hclient'.symm), Id.ext_text (hworkload.trans hworkload'.symm)⟩

/-- One candidate, whose run was registered for its request. -/
theorem Candidate.candidate_commits_sample : Candidate.SameResult Sample.candidate Sample.candidate := by
  have free : ∀ preimage : List UInt8, Set.InjOn sha256 {preimage, preimage} := fun preimage => by
    rw [Set.pair_eq_singleton]
    exact Set.injOn_singleton _ _
  exact (candidate_commits Sample.candidate_reachable Sample.candidate_reachable (free _) (free _) rfl).1

end Mikaki
