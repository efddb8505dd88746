import Mikaki.Work.Delegation

/-!
# What the delegation checks admit

One lemma for each check and constructor of grants, runs, guards and
candidates, and one for the revocation they share.
-/

namespace Mikaki

open Checks

/-! ## Revocation -/

/-- The revision is 1 while unrevoked and 2 once revoked. -/
def Standing (revision : Nat) (revoked : Bool) : Prop := (revision = 1 ∧ revoked = false) ∨ (revision = 2 ∧ revoked = true)

theorem Standing.stored {revision : Nat} {revoked : Bool} (h : Standing revision revoked) :
    0 < revision ∧ revision ≤ maxStoredInteger := by
  rcases h with ⟨rfl, -⟩ | ⟨rfl, -⟩ <;> decide

theorem Standing.unrevoked {revision : Nat} {revoked : Bool} (h : Standing revision revoked) (hr : revoked = false) :
    revision = 1 := by
  rcases h with ⟨h, -⟩ | ⟨-, h⟩
  · exact h
  · rw [h] at hr; cases hr

/-- Revocation takes effect once; a failed or a second one changes nothing. -/
theorem revokeState_cases (revision : Nat) (revoked : Bool) :
    (revoked = false ∧ revision + 1 < 2 ^ 64 ∧ revokeState revision revoked = (.ok (), revision + 1, true)) ∨
    (revoked = false ∧ revokeState revision revoked = (.error .invalidTransition, revision, revoked)) ∨
    (revoked = true ∧ revokeState revision revoked = (.ok (), revision, revoked)) := by
  unfold revokeState checkedSucc
  cases revoked with
  | true => exact .inr (.inr ⟨rfl, rfl⟩)
  | false =>
    by_cases h : revision + 1 < 2 ^ 64
    · exact .inl ⟨rfl, h, by rw [if_pos rfl, if_pos h]⟩
    · exact .inr (.inl ⟨rfl, by rw [if_pos rfl, if_neg h]⟩)

theorem Standing.revoke {revision : Nat} {revoked : Bool} (h : Standing revision revoked) :
    revokeState revision revoked = (.ok (), 2, true) := by
  rcases h with ⟨rfl, rfl⟩ | ⟨rfl, rfl⟩ <;> decide

/-- A grant as it was, or its one revocation. -/
def Grant.Later (g g' : Grant) : Prop :=
  g' = g ∨ (g.revoked = false ∧ g' = { g with revision := g.revision + 1, revoked := true })

def Run.Later (n n' : Run) : Prop :=
  n' = n ∨ (n.revoked = false ∧ n' = { n with revision := n.revision + 1, revoked := true })

theorem Grant.Later.trans {a b c : Grant} (h₁ : Later a b) (h₂ : Later b c) : Later a c := by
  rcases h₁ with rfl | ⟨hr, rfl⟩
  · exact h₂
  · rcases h₂ with rfl | ⟨h, -⟩
    · exact .inr ⟨hr, rfl⟩
    · cases h

theorem Run.Later.trans {a b c : Run} (h₁ : Later a b) (h₂ : Later b c) : Later a c := by
  rcases h₁ with rfl | ⟨hr, rfl⟩
  · exact h₂
  · rcases h₂ with rfl | ⟨h, -⟩
    · exact .inr ⟨hr, rfl⟩
    · cases h

theorem Grant.later_revoke (g : Grant) : g.Later g.revoke.2 := by
  unfold Grant.revoke
  obtain ⟨h, -, hr⟩ | ⟨h, hr⟩ | ⟨h, hr⟩ := revokeState_cases g.revision g.revoked <;> rw [hr]
  · exact .inr ⟨h, rfl⟩
  · exact .inl rfl
  · exact .inl rfl

theorem Run.later_revoke (n : Run) : n.Later n.revoke.2 := by
  unfold Run.revoke
  obtain ⟨h, -, hr⟩ | ⟨h, hr⟩ | ⟨h, hr⟩ := revokeState_cases n.revision n.revoked <;> rw [hr]
  · exact .inr ⟨h, rfl⟩
  · exact .inl rfl
  · exact .inl rfl

/-! ## What the checks admit -/

theorem WorkRequest.check_ok {r : WorkRequest} {e : Environment} {x : Unit} : r.check e = .ok x ↔
    e.checkOwner r.owner r.ownerEpoch = .ok () ∧ r.policyRevision = e.policyRevision ∧ e.now < r.input.deadline := by
  simp only [WorkRequest.check, check_bind_eq_ok, denyIf_eq_ok, ne_eq, Decidable.not_not, ge_iff_le, Nat.not_le]

theorem TaskRepository.check_ok {t : TaskRepository} {r : WorkRequest} {x : Unit} (h : t.check r = .ok x) :
    t.available = true ∧ t.owner = r.owner ∧ t.id.text = r.input.taskRepository ∧
      Digest.parseHex r.input.disclosureDigest = .ok t.disclosure := by
  simp only [check, checkRequest, bind_eq_ok, exists_unit, denyIf_eq_ok, not_or, ne_eq, Decidable.not_not,
    Bool.not_eq_false] at h
  obtain ⟨ha, ⟨ho, hi⟩, d, hd, rfl, -⟩ := h
  exact ⟨ha, ho, hi, hd⟩

theorem Grant.check_ok {g : Grant} {r : WorkRequest} {t : TaskRepository} {e : Environment} {x : Unit} :
    g.check r t e = .ok x ↔ r.check e = .ok () ∧ g.revoked = false ∧ e.now < g.expiresAt ∧ g.request = r.digest ∧
      t.check r = .ok () ∧ t.revision = g.taskRevision := by
  simp only [check, check_bind_eq_ok, denyIf_eq_ok, ne_eq, Decidable.not_not, ge_iff_le, Nat.not_le, Bool.not_eq_true]

theorem Grant.approve_ok {id : String} {r : WorkRequest} {reviewed : Digest} {s : OwnerSession} {t : TaskRepository}
    {e : Environment} {g : Grant} : approve id r reviewed s t e = .ok g ↔
      s.check e = .ok () ∧ r.check e = .ok () ∧ s.id = r.owner ∧ r.digest = reviewed ∧ t.check r = .ok () ∧
      g.id.text = id ∧ g = { id := g.id, revision := 1, request := reviewed, taskRevision := t.revision
                             expiresAt := r.expiresAt, revoked := false } := by
  simp only [approve, bind_eq_ok, exists_unit, denyIf_eq_ok, ne_eq, Decidable.not_not, pure_eq_ok, Id.parse_ok]
  constructor
  · rintro ⟨hs, hr, hi, hd, ht, i, rfl, rfl⟩; exact ⟨hs, hr, hi, hd, ht, rfl, rfl⟩
  · rintro ⟨hs, hr, hi, hd, ht, hg, h⟩; exact ⟨hs, hr, hi, hd, ht, _, hg, h.symm⟩

theorem Run.register_ok {a : ManagedActor} {g : Grant} {r : WorkRequest} {t : TaskRepository} {x : Nat}
    {e : Environment} {n : Run} : register a g r t x e = .ok n ↔
      g.check r t e = .ok () ∧ e.now < a.expiresAt ∧
      (a.grant = g.id ∧ a.client.text = r.input.recipient ∧ a.workload.text = r.input.workload) ∧
      deadline e.now x maxWorkSeconds = .ok () ∧ x ≤ g.expiresAt ∧
      { id := a.run, revision := 1, grant := g.id, request := r.digest, issuer := a.issuer
        issuerRevision := a.issuerRevision, client := a.client, workload := a.workload, proofKey := a.proofKey
        expiresAt := x, revoked := false } = n := by
  simp only [register, check_bind_eq_ok, denyIf_eq_ok, not_or, ne_eq, Decidable.not_not, gt_iff_lt, Nat.not_lt,
    Nat.not_le, pure_eq_ok]

theorem Run.authorizeSubmission_ok {n : Run} {action : String} {g : Grant} {r : WorkRequest} {a : ManagedActor}
    {t : TaskRepository} {e : Environment} {guard : SubmissionGuard} :
    n.authorizeSubmission action g r a t e = .ok guard ↔
      action = submit ∧ g.check r t e = .ok () ∧ n.revoked = false ∧ (e.now < n.expiresAt ∧ e.now < a.expiresAt) ∧
      n.request = r.digest ∧ (n.grant = g.id ∧ a.grant = g.id ∧ a.run = n.id ∧ a.issuer = n.issuer ∧
        a.issuerRevision = n.issuerRevision ∧ a.client = n.client ∧ a.workload = n.workload ∧
        a.proofKey = n.proofKey) ∧
      { owner := r.owner, ownerEpoch := r.ownerEpoch, policyRevision := e.policyRevision, request := r.digest
        requestRevision := r.revision, producer := .current g n, task := t.id, taskRevision := t.revision
        disclosure := t.disclosure, proofKey := a.proofKey, authenticationExpires := a.expiresAt
        expiresAt := min n.expiresAt g.expiresAt, adoptionRepository := r.input.adoptionRepository
        adoptionRef := r.input.adoptionRef, expectedHead := r.input.expectedHead
        gitOidLength := r.input.baseCommit.utf8ByteSize } = guard := by
  simp only [authorizeSubmission, check_bind_eq_ok, denyIf_eq_ok, not_or, ne_eq, Decidable.not_not, ge_iff_le,
    Nat.not_le, pure_eq_ok, Bool.not_eq_true]

theorem SubmissionGuard.prepareCandidate_ok [Hashes] {guard : SubmissionGuard} {i : CandidateInput}
    {p : PreparedCandidate} : guard.prepareCandidate i = .ok p ↔
      ((i.commit.utf8ByteSize = 40 ∨ i.commit.utf8ByteSize = 64) ∧ lowerHex i.commit = true) ∧
      ((i.tree.utf8ByteSize = 40 ∨ i.tree.utf8ByteSize = 64) ∧ lowerHex i.tree = true) ∧
      (i.commit.utf8ByteSize = guard.gitOidLength ∧ i.tree.utf8ByteSize = guard.gitOidLength) ∧
      { guard, candidate :=
        { provenance := guard, owner := guard.owner, producer := guard.producer, request := guard.request
          adoptionRepository := guard.adoptionRepository, adoptionRef := guard.adoptionRef
          expectedHead := guard.expectedHead, commit := i.commit, tree := i.tree, evidence := i.evidence
          digest := sha256 (guard.preimage i.commit i.tree i.evidence) } } = p := by
  simp only [prepareCandidate, bind_eq_ok, exists_unit, denyIf_eq_ok, gitOid_ok, not_or, ne_eq, Decidable.not_not,
    pure_eq_ok]
  constructor
  · rintro ⟨_, ⟨hc, rfl⟩, _, ⟨ht, rfl⟩, hl, rfl⟩; exact ⟨hc, ht, hl, rfl⟩
  · rintro ⟨hc, ht, hl, rfl⟩; exact ⟨_, ⟨hc, rfl⟩, _, ⟨ht, rfl⟩, hl, rfl⟩

theorem PreparedCandidate.confirm_ok {p : PreparedCandidate} {g : SubmissionGuard} {c : Candidate} :
    p.confirm g = .ok c ↔ p.guard = g ∧ p.candidate = c := by
  simp only [confirm, check_bind_eq_ok, denyIf_eq_ok, ne_eq, Decidable.not_not, pure_eq_ok]

end Mikaki
