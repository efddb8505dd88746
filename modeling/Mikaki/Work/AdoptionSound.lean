import Mikaki.Work.Adoption
import Mikaki.Work.DelegationSound

/-!
# What the adoption checks admit and what each transition does
-/

namespace Mikaki

open Checks

theorem Candidate.checkProducer_ok {c : Candidate} {g : Grant} {n : Run} {x : Unit} :
    c.checkProducer g n = .ok x ↔ c.producer.sameProducer g n ∧ c.request = g.request ∧ c.request = n.request := by
  simp only [checkProducer, denyIf_eq_ok, not_or, ne_eq, Decidable.not_not]

theorem AdoptionContext.checkTarget_ok {c : AdoptionContext} {x : Unit} : c.checkTarget = .ok x ↔
    c.candidate.checkProducer c.grant c.run = .ok () ∧ c.target.owner = c.candidate.owner ∧ c.target.writable = true ∧
      c.target.repository.text = c.candidate.adoptionRepository ∧ c.target.reference = c.candidate.adoptionRef ∧
      c.target.head = c.candidate.expectedHead := by
  simp only [checkTarget, check_bind_eq_ok, denyIf_eq_ok, not_or, ne_eq, Decidable.not_not, Bool.not_eq_false]

namespace CodeApproval

/-- An approval as it was, or its one revocation. -/
def Later (a a' : CodeApproval) : Prop :=
  a' = a ∨ (a.revoked = false ∧ a' = { a with revision := a.revision + 1, revoked := true })

theorem Later.trans {a b c : CodeApproval} (h₁ : Later a b) (h₂ : Later b c) : Later a c := by
  rcases h₁ with rfl | ⟨hr, rfl⟩
  · exact h₂
  · rcases h₂ with rfl | ⟨h, -⟩
    · exact .inr ⟨hr, rfl⟩
    · cases h

theorem later_revoke (a : CodeApproval) : a.Later a.revoke.2 := by
  unfold revoke
  obtain ⟨h, -, hr⟩ | ⟨h, hr⟩ | ⟨h, hr⟩ := revokeState_cases a.revision a.revoked <;> rw [hr]
  · exact .inr ⟨h, rfl⟩
  · exact .inl rfl
  · exact .inl rfl

variable {a : CodeApproval} {c : AdoptionContext}

theorem approve_ok {id : String} {reviewed : Digest} {s : OwnerSession} {x : Nat} :
    approve id reviewed s c x = .ok a ↔
      s.check c.environment = .ok () ∧ c.checkTarget = .ok () ∧ c.candidate.owner = s.id ∧
      c.candidate.digest = reviewed ∧ deadline c.environment.now x maxApprovalSeconds = .ok () ∧ x ≤ s.expiresAt ∧
      a.id.text = id ∧ a =
        { id := a.id, revision := 1, owner := s.id, ownerEpoch := s.epoch
          policyRevision := c.environment.policyRevision, candidate := reviewed
          producer := .current c.grant c.run, targetRevision := c.target.revision, expiresAt := x, revoked := false } := by
  simp only [approve, bind_eq_ok, exists_unit, denyIf_eq_ok, ne_eq, Decidable.not_not, gt_iff_lt, Nat.not_lt,
    pure_eq_ok, Id.parse_ok]
  constructor
  · rintro ⟨hs, ht, ho, hd, hx, he, i, rfl, rfl⟩; exact ⟨hs, ht, ho, hd, hx, he, rfl, rfl⟩
  · rintro ⟨hs, ht, ho, hd, hx, he, hi, h⟩; exact ⟨hs, ht, ho, hd, hx, he, _, hi, h.symm⟩

theorem check_ok {action : String} {x : Unit} : a.check action c = .ok x ↔
    action = adoptCode ∧ c.environment.checkOwner a.owner a.ownerEpoch = .ok () ∧ a.revoked = false ∧
      c.environment.now < a.expiresAt ∧ c.environment.policyRevision = a.policyRevision ∧ c.checkTarget = .ok () ∧
      (c.candidate.owner = a.owner ∧ c.candidate.digest = a.candidate) ∧ a.targetRevision = c.target.revision ∧
      a.producer = .current c.grant c.run := by
  simp only [check, check_bind_eq_ok, denyIf_eq_ok, not_or, ne_eq, Decidable.not_not, ge_iff_le, Nat.not_le,
    Bool.not_eq_true]

theorem prepareOperation_ok {action id : String} {o : ExternalOperation} : a.prepareOperation action id c = .ok o ↔
    a.check action c = .ok () ∧ o.id.text = id ∧
      o = { id := o.id, effect := a.effect c, state := .prepared, receipt := none } := by
  simp only [prepareOperation, bind_eq_ok, exists_unit, pure_eq_ok, Id.parse_ok]
  constructor
  · rintro ⟨hc, i, rfl, rfl⟩; exact ⟨hc, rfl, rfl⟩
  · rintro ⟨hc, hi, h⟩; exact ⟨hc, _, hi, h.symm⟩

/-- A dispatch passes every live guard and takes a prepared operation forward, or changes nothing. -/
theorem dispatch_cases (a : CodeApproval) (o : ExternalOperation) (c : AdoptionContext) :
    (o.state = .prepared ∧ a.check adoptCode c = .ok () ∧ o.effect = a.effect c ∧
      a.dispatch o c = (.ok (), { o with state := .dispatched })) ∨ ∃ e, a.dispatch o c = (.error e, o) := by
  unfold dispatch
  by_cases hp : o.state = .prepared
  · rw [if_neg (not_not_intro hp)]
    cases hc : a.check adoptCode c with
    | error e => exact .inr ⟨e, rfl⟩
    | ok u =>
      by_cases he : o.effect = a.effect c
      · exact .inl ⟨hp, rfl, he, if_neg (not_not_intro he)⟩
      · exact .inr ⟨_, if_pos he⟩
  · exact .inr ⟨_, if_pos hp⟩

end CodeApproval

namespace ExternalOperation

/-- Cancelling reaches `cancelled` from `prepared` and from itself only. -/
theorem cancelUndispatched_cases (o : ExternalOperation) :
    ((o.state = .prepared ∨ o.state = .cancelled) ∧ o.cancelUndispatched = (.ok (), { o with state := .cancelled })) ∨
    ∃ e, o.cancelUndispatched = (.error e, o) := by
  unfold cancelUndispatched
  cases hs : o.state with
  | prepared => exact .inl ⟨.inl rfl, rfl⟩
  | cancelled => exact .inl ⟨.inr rfl, rfl⟩
  | _ => exact .inr ⟨_, rfl⟩

theorem markOutcomeUnknown_cases (o : ExternalOperation) :
    ((o.state = .dispatched ∨ o.state = .outcomeUnknown) ∧
      o.markOutcomeUnknown = (.ok (), { o with state := .outcomeUnknown })) ∨
    ∃ e, o.markOutcomeUnknown = (.error e, o) := by
  unfold markOutcomeUnknown
  cases hs : o.state with
  | dispatched => exact .inl ⟨.inl rfl, rfl⟩
  | outcomeUnknown => exact .inl ⟨.inr rfl, rfl⟩
  | _ => exact .inr ⟨_, rfl⟩

/-- A receipt settles what was dispatched; the same receipt again changes nothing; everything else is refused. -/
theorem finish_cases (o : ExternalOperation) (outcome : OperationState) (receipt : String) :
    (∃ r, r.text = receipt ∧ (o.state = .dispatched ∨ o.state = .outcomeUnknown) ∧
      o.finish outcome receipt = (.ok (), { o with state := outcome, receipt := some r })) ∨
    (∃ r, r.text = receipt ∧ (o.state = .applied ∨ o.state = .rejected) ∧ o.state = outcome ∧ o.receipt = some r ∧
      o.finish outcome receipt = (.ok (), o)) ∨
    ∃ e, o.finish outcome receipt = (.error e, o) := by
  unfold finish
  cases hi : Id.parse receipt with
  | error e => exact .inr (.inr ⟨e, rfl⟩)
  | ok r =>
    have hr := Id.parse_ok.mp hi
    by_cases hm : o.state = outcome ∧ o.receipt = some r
    · cases hs : o.state with
      | dispatched => exact .inl ⟨r, hr, .inl rfl, rfl⟩
      | outcomeUnknown => exact .inl ⟨r, hr, .inr rfl, rfl⟩
      | applied => exact .inr (.inl ⟨r, hr, .inl rfl, hs ▸ hm.1, hm.2, if_pos (hs ▸ hm)⟩)
      | rejected => exact .inr (.inl ⟨r, hr, .inr rfl, hs ▸ hm.1, hm.2, if_pos (hs ▸ hm)⟩)
      | _ => exact .inr (.inr ⟨_, rfl⟩)
    · cases hs : o.state with
      | dispatched => exact .inl ⟨r, hr, .inl rfl, rfl⟩
      | outcomeUnknown => exact .inl ⟨r, hr, .inr rfl, rfl⟩
      | applied => exact .inr (.inr ⟨_, if_neg (hs ▸ hm)⟩)
      | rejected => exact .inr (.inr ⟨_, if_neg (hs ▸ hm)⟩)
      | _ => exact .inr (.inr ⟨_, rfl⟩)

end ExternalOperation

end Mikaki
