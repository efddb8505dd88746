import Mikaki.Oidc.ReplayStore

/-!
# No token is accepted twice

An accepted token has its row for as long as verification accepts it: rows are
swept when their time is over, and the time of a row is that of its token.
-/

namespace Mikaki.Oidc

open Checks Words Replay
open Mikaki.Vault (encode64)

/-! ## Tokens -/

inductive Token where
  | proof (compact : String)
  | assertion (compact : String)
  deriving DecidableEq

def Call.token : Call → Option Token
  | .identityProof compact .. => some (.proof compact)
  | .resourceProof compact .. => some (.proof compact)
  | .assertion _ compact .. => some (.assertion compact)
  | .cleanup => none
  | .retain => none
  | .other .. => none

/-- The receipt drawn for the request. -/
def Call.operation : Call → Option String
  | .identityProof _ _ _ _ _ operation _ _ => some operation
  | .resourceProof _ _ _ _ _ operation _ _ => some operation
  | .assertion _ _ _ _ _ operation => some operation
  | .cleanup => none
  | .retain => none
  | .other .. => none

/-- No row of an acceptance has this receipt. -/
def Db.unused (d : Db) (operation : String) : Prop :=
  (∀ row ∈ d.proofUses, row.acceptedBy ≠ operation) ∧ ∀ row ∈ d.assertionUses, row.acceptedBy ≠ operation

instance (d : Db) : DecidablePred d.unused := fun _ => inferInstanceAs (Decidable (_ ∧ _))

/-- The receipts are drawn once each. -/
def Fresh (calls : List Call) (d : Db) : Prop :=
  (calls.filterMap Call.operation).Nodup ∧ ∀ operation ∈ calls.filterMap Call.operation, d.unused operation

instance (calls : List Call) (d : Db) : Decidable (Fresh calls d) := inferInstanceAs (Decidable (_ ∧ _))

section
variable [AssertionFormats]

/-- How often a run accepts the token. -/
def acceptances (deployment : Deployment) (token : Token) : List Call → Db → Nat
  | [], _ => 0
  | call :: calls, d =>
    (if call.token = some token ∧ (step deployment call d).1 = true then 1 else 0) +
      acceptances deployment token calls (step deployment call d).2

/-- The skew that a deployment verifies with. -/
def Deployment.skewFor (deployment : Deployment) (audience : String) : UInt64 :=
  if deployment.fapiFor audience = true then 10 else deployment.assertion.clockSkewSeconds

/-- The row of the token is there, or its time is over. -/
def Token.spent (deployment : Deployment) (d : Db) : Token → Prop
  | .proof compact => ∃ jwk claims, claimsOf compact = some (jwk, claims) ∧
      Spent ProofUse.key ProofUse.retainUntil (jwk.thumbprint, encode64 (Sha.sha256 (Text.bytes claims.jti)))
        (claims.iat + 70).toNat d.proofUses d.clock
  | .assertion compact => ∃ claims audience, assertionClaimsOf compact = some claims ∧ claims.aud.matchesExactly audience = true ∧
      Spent AssertionUse.key AssertionUse.retainUntil (claims.iss, claims.jti)
        (claims.exp.toNat + (deployment.skewFor audience).toNat) d.assertionUses d.clock

end

/-! ## What a statement leaves -/

/-- What was spent stays spent, and the rows that are new have this receipt. -/
structure Db.Keeps (operation : Option String) (d later : Db) : Prop where
  clock : d.clock ≤ later.clock
  proofs : ∀ k u, Spent ProofUse.key ProofUse.retainUntil k u d.proofUses d.clock →
    Spent ProofUse.key ProofUse.retainUntil k u later.proofUses later.clock
  assertions : ∀ k u, Spent AssertionUse.key AssertionUse.retainUntil k u d.assertionUses d.clock →
    Spent AssertionUse.key AssertionUse.retainUntil k u later.assertionUses later.clock
  proofRows : ∀ row ∈ later.proofUses, row ∈ d.proofUses ∨ some row.acceptedBy = operation
  assertionRows : ∀ row ∈ later.assertionUses, row ∈ d.assertionUses ∨ some row.acceptedBy = operation

namespace Db

variable {d later next : Db} {operation : String} {o : Option String}

theorem Keeps.refl : d.Keeps o d :=
  ⟨le_rfl, fun _ _ h => h, fun _ _ h => h, fun _ h => .inl h, fun _ h => .inl h⟩

theorem Keeps.trans (h : d.Keeps o later) (h' : later.Keeps o next) : d.Keeps o next where
  clock := h.clock.trans h'.clock
  proofs k u hs := h'.proofs k u (h.proofs k u hs)
  assertions k u hs := h'.assertions k u (h.assertions k u hs)
  proofRows row hrow := by
    rcases h'.proofRows row hrow with hold | hnew
    · exact h.proofRows row hold
    · exact .inr hnew
  assertionRows row hrow := by
    rcases h'.assertionRows row hrow with hold | hnew
    · exact h.assertionRows row hold
    · exact .inr hnew

/-- A receipt that is unused stays so under the statements of others. -/
theorem Keeps.unused (h : d.Keeps o later) (hu : d.unused operation) (hne : o ≠ some operation) : later.unused operation := by
  constructor
  · intro row hrow he
    rcases h.proofRows row hrow with hold | hnew
    · exact hu.1 row hold he
    · exact hne (he ▸ hnew.symm)
  · intro row hrow he
    rcases h.assertionRows row hrow with hold | hnew
    · exact hu.2 row hold he
    · exact hne (he ▸ hnew.symm)

theorem cleanup_keeps (d : Db) : d.Keeps o d.cleanup :=
  ⟨le_rfl, fun _ _ h => h.sweep 1000, fun _ _ h => h, fun _ h => .inl (sweep_subset _ _ _ _ h), fun _ h => .inl h⟩

theorem retain_keeps (d : Db) : d.Keeps o d.retain :=
  ⟨le_rfl, fun _ _ h => h.sweep 1000, fun _ _ h => h.sweep 1000, fun _ h => .inl (sweep_subset _ _ _ _ h),
    fun _ h => .inl (sweep_subset _ _ _ _ h)⟩

theorem other_keeps (d : Db) (tables : Tables) (clock : Nat) : d.Keeps o { d with tables, clock := max d.clock clock } :=
  ⟨le_max_left _ _, fun _ _ h => h.mono (List.Subset.refl _) (le_max_left _ _),
    fun _ _ h => h.mono (List.Subset.refl _) (le_max_left _ _), fun _ h => .inl h, fun _ h => .inl h⟩

/-! ## Proofs -/

variable {proof : VerifiedDpopProof} {condition added requireNonce : Bool} {scope : NonceScope} {tokenHash : String}

/-- The insert either adds the row of the proof, whose key was free and whose time is not over, or nothing. -/
theorem insertProof_some (h : d.insertProof proof operation condition = some (added, later)) :
    (added = true ∧ (∀ used ∈ d.proofUses, used.key ≠ (proof.thumbprint, proof.jtiHash)) ∧ d.clock ≤ proof.retainUntil.toNat ∧
      later = { d with proofUses := d.proofUses ++ [⟨proof.thumbprint, proof.jtiHash, operation, proof.retainUntil.toNat⟩] }) ∨
    (added = false ∧ later = d) := by
  unfold insertProof at h
  dsimp only at h
  split at h
  · rename_i hc
    obtain ⟨-, hlate, -, -, hfree⟩ := hc
    obtain ⟨rows, hrows, he⟩ := Option.map_eq_some_iff.mp h
    obtain ⟨rfl, rfl⟩ := Prod.mk.inj he
    exact .inl ⟨rfl, hfree, hlate, by rw [← (Rows.insert_eq_some.mp hrows).2]⟩
  · obtain ⟨rfl, rfl⟩ := Prod.mk.inj (Option.some.inj h)
    exact .inr ⟨rfl, rfl⟩

theorem insertProof_keeps (h : d.insertProof proof operation condition = some (added, later)) :
    d.Keeps (some operation) later := by
  rcases insertProof_some h with ⟨-, -, -, rfl⟩ | ⟨-, rfl⟩
  · refine ⟨le_rfl, fun _ _ h => h.mono (List.subset_append_left _ _) le_rfl, fun _ _ h => h, ?_, fun _ h => .inl h⟩
    intro row hrow
    rcases List.mem_append.mp hrow with hold | hnew
    · exact .inl hold
    · exact .inr (List.mem_singleton.mp hnew ▸ rfl)
  · exact Keeps.refl

/-- The proof of an acceptance was not spent before, and is spent after. -/
def Spends (proof : VerifiedDpopProof) (d later : Db) : Prop :=
  ¬Spent ProofUse.key ProofUse.retainUntil (proof.thumbprint, proof.jtiHash) proof.retainUntil.toNat d.proofUses d.clock ∧
    Spent ProofUse.key ProofUse.retainUntil (proof.thumbprint, proof.jtiHash) proof.retainUntil.toNat later.proofUses later.clock

theorem insertProof_spends (h : d.cleanup.insertProof proof operation condition = some (true, later)) : Spends proof d later := by
  rcases insertProof_some h with ⟨-, hfree, hlate, rfl⟩ | ⟨hf, -⟩
  · refine ⟨fun hs => ?_, @spent_snoc _ _ ProofUse.key ProofUse.retainUntil _ _ _⟩
    have hover := (hs.sweep 1000).over hfree
    exact absurd hover (not_lt.mpr hlate)
  · cases hf

theorem acceptIdentityProof_keeps : d.Keeps (some operation) (d.acceptIdentityProof proof operation requireNonce scope).2 := by
  unfold acceptIdentityProof
  split
  · exact Keeps.refl
  · rename_i h; exact (cleanup_keeps d).trans (insertProof_keeps h)
  · rename_i h; exact (cleanup_keeps d).trans (insertProof_keeps h)

theorem acceptIdentityProof_spends (h : (d.acceptIdentityProof proof operation requireNonce scope).1.isOk = true) :
    Spends proof d (d.acceptIdentityProof proof operation requireNonce scope).2 := by
  unfold acceptIdentityProof at h ⊢
  split at h
  · cases h
  · rename_i hi
    exact insertProof_spends hi
  · cases h

theorem authorizeResource_keeps : d.Keeps (some operation) (d.authorizeResource proof operation tokenHash requireNonce).2 := by
  unfold authorizeResource
  dsimp only
  split
  · exact Keeps.refl
  · rename_i h; exact (cleanup_keeps d).trans (insertProof_keeps h)

/-- A subject is read only behind a row with the receipt of this request, and no other request has written one. -/
theorem authorizeResource_spends {subject : String} (hu : d.unused operation)
    (h : (d.authorizeResource proof operation tokenHash requireNonce).1 = .ok (some subject)) :
    Spends proof d (d.authorizeResource proof operation tokenHash requireNonce).2 := by
  unfold authorizeResource at h ⊢
  dsimp only at h ⊢
  split at h
  · cases h
  · rename_i added later hi
    cases added with
    | true => exact insertProof_spends hi
    | false =>
      rcases insertProof_some hi with ⟨hf, -⟩ | ⟨-, rfl⟩
      · cases hf
      · have hfree := (cleanup_keeps (o := none) d).unused hu (fun hn => by cases hn)
        have hnone : (d.cleanup.proofUses.any fun p =>
            p.key = (proof.thumbprint, proof.jtiHash) ∧ p.acceptedBy = operation ∧ d.cleanup.clock ≤ p.retainUntil) = false := by
          refine List.any_eq_false.mpr fun row hrow he => ?_
          exact hfree.1 row hrow (of_decide_eq_true he).2.1
        rw [hnone] at h
        cases h

/-! ## Assertions -/

variable {assertion : VerifiedClientAssertion} {endpoint audience : String}

/-- The insert adds the row of the assertion, whose key was free and whose time is not over, or changes nothing. -/
theorem insertAssertion_some (h : d.insertAssertion assertion endpoint operation = some later) :
    ((∀ used ∈ d.assertionUses, used.key ≠ (assertion.clientId, assertion.jti)) ∧ d.clock < assertion.retainUntil.toNat ∧
      later = { d with assertionUses :=
        d.assertionUses ++ [⟨assertion.clientId, assertion.jti, endpoint, operation, assertion.retainUntil.toNat⟩] }) ∨
    later = d := by
  unfold insertAssertion at h
  dsimp only at h
  split at h
  · rename_i hc
    split at h
    · cases h
    · obtain ⟨rows, hrows, rfl⟩ := Option.map_eq_some_iff.mp h
      obtain ⟨⟨-, hfree⟩, rfl⟩ := Rows.insert_eq_some.mp hrows
      exact .inl ⟨hfree, hc.2, rfl⟩
  · exact .inr (Option.some.inj h).symm

theorem insertReceipt_some (h : d.insertReceipt assertion endpoint operation = some later) :
    later.assertionUses = d.assertionUses ∧ later.proofUses = d.proofUses ∧ later.clock = d.clock := by
  unfold insertReceipt at h
  dsimp only at h
  split at h
  · obtain ⟨rows, -, rfl⟩ := Option.map_eq_some_iff.mp h
    exact ⟨rfl, rfl, rfl⟩
  · obtain rfl := Option.some.inj h
    exact ⟨rfl, rfl, rfl⟩

theorem insertAssertion_keeps (h : d.insertAssertion assertion endpoint operation = some later) :
    d.Keeps (some operation) later := by
  rcases insertAssertion_some h with ⟨-, -, rfl⟩ | rfl
  · refine ⟨le_rfl, fun _ _ h => h, fun _ _ h => h.mono (List.subset_append_left _ _) le_rfl, fun _ h => .inl h, ?_⟩
    intro row hrow
    rcases List.mem_append.mp hrow with hold | hnew
    · exact .inl hold
    · exact .inr (List.mem_singleton.mp hnew ▸ rfl)
  · exact Keeps.refl

theorem insertReceipt_keeps (h : d.insertReceipt assertion endpoint operation = some later) : d.Keeps o later := by
  obtain ⟨ha, hp, hc⟩ := insertReceipt_some h
  constructor
  · exact hc.ge
  · intro k u hs; rwa [hp, hc]
  · intro k u hs; rwa [ha, hc]
  · intro row hrow; exact .inl (hp ▸ hrow)
  · intro row hrow; exact .inl (ha ▸ hrow)

theorem assertionBatch_keeps (h : d.assertionBatch assertion endpoint operation = some later) : d.Keeps (some operation) later := by
  simp only [assertionBatch, Option.bind_eq_bind, Option.bind_eq_some_iff, Option.pure_def, Option.some.injEq] at h
  obtain ⟨inserted, hi, received, hr, _, -, rfl⟩ := h
  exact (insertAssertion_keeps hi).trans (insertReceipt_keeps hr)

/-- The guard finds the row with the receipt of this request, and no other request has written one. -/
theorem assertionBatch_spends (hu : d.unused operation) (h : d.assertionBatch assertion endpoint operation = some later) :
    ¬Spent AssertionUse.key AssertionUse.retainUntil (assertion.clientId, assertion.jti) assertion.retainUntil.toNat
        d.assertionUses d.clock ∧
      Spent AssertionUse.key AssertionUse.retainUntil (assertion.clientId, assertion.jti) assertion.retainUntil.toNat
        later.assertionUses later.clock := by
  simp only [assertionBatch, Option.bind_eq_bind, Option.bind_eq_some_iff, Option.pure_def, Option.some.injEq] at h
  obtain ⟨inserted, hi, received, hr, _, hguard, rfl⟩ := h
  obtain ⟨row, hrow, hop, -⟩ := Rows.require_eq_some.mp hguard
  obtain ⟨ha, -, -⟩ := insertReceipt_some hr
  rw [ha] at hrow ⊢
  rcases insertAssertion_some hi with ⟨hfree, hlate, rfl⟩ | rfl
  · refine ⟨fun hs => ?_, @spent_snoc _ _ AssertionUse.key AssertionUse.retainUntil _ _ _⟩
    exact absurd (hs.over hfree) (not_lt.mpr hlate.le)
  · exact absurd hop (hu.2 row hrow)

theorem acceptClientAssertion_keeps :
    d.Keeps (some operation) (d.acceptClientAssertion assertion audience endpoint operation).2 := by
  unfold acceptClientAssertion
  split
  · exact Keeps.refl
  · split
    · exact Keeps.refl
    · split
      · exact Keeps.refl
      · rename_i h; exact assertionBatch_keeps h

theorem acceptClientAssertion_ok (h : (d.acceptClientAssertion assertion audience endpoint operation).1.isOk = true) :
    d.assertionBatch assertion endpoint operation = some (d.acceptClientAssertion assertion audience endpoint operation).2 := by
  unfold acceptClientAssertion at h ⊢
  split at h
  · cases h
  · rename_i hsame
    rw [if_neg hsame]
    split at h
    · cases h
    · rename_i hrange
      rw [if_neg hrange]
      split at h
      · cases h
      · rename_i hb
        exact hb

end Db

/-! ## Requests -/

theorem Audience.matchesExactly_unique {aud : Audience} {a b : String} (ha : aud.matchesExactly a = true)
    (hb : aud.matchesExactly b = true) : a = b := by
  cases aud with
  | one value => exact (eq_of_beq ha).symm.trans (eq_of_beq hb)
  | many values =>
    have h : [a] = [b] := (eq_of_beq ha).symm.trans (eq_of_beq hb)
    exact (List.cons.inj h).1

theorem fromSeconds_eq_ok {lifetime skew : UInt64} {policy : ClientAssertionPolicy}
    (h : ClientAssertionPolicy.fromSeconds lifetime skew = .ok policy) : policy = ⟨lifetime, skew⟩ := by
  simp only [ClientAssertionPolicy.fromSeconds, bind_eq_ok, pure_eq_ok] at h
  obtain ⟨_, -, rfl⟩ := h
  rfl

section
variable [AssertionFormats] {deployment : Deployment} {d later : Db} {token : Token} {call : Call} {calls : List Call}

theorem Deployment.verify_ok {key : ClientAssertionKey} {compact audience : String} {now : UInt64} {assertion : VerifiedClientAssertion}
    (h : deployment.verify key compact audience now = .ok assertion) :
    ∃ claims, assertionClaimsOf compact = some claims ∧ claims.aud.matchesExactly audience = true ∧
      assertion.clientId = claims.iss ∧ assertion.jti = claims.jti ∧
      assertion.retainUntil.toNat = claims.exp.toNat + (deployment.skewFor audience).toNat := by
  unfold Deployment.verify at h
  unfold Deployment.skewFor
  by_cases hf : deployment.fapiFor audience = true
  · rw [if_pos hf] at h ⊢
    simp only [ClientAssertionKey.verifyFapiPrivateKeyJwt, bind_eq_ok] at h
    obtain ⟨policy, hp, h⟩ := h
    obtain rfl := fromSeconds_eq_ok hp
    obtain ⟨claims, hc, -, haud, hid, hjti, -, hretain⟩ := verifyWith_ok h
    exact ⟨claims, hc, haud, hid, hjti, checkedAdd_eq_some.mp hretain⟩
  · rw [if_neg hf] at h ⊢
    obtain ⟨claims, hc, -, haud, hid, hjti, -, hretain⟩ := verifyWith_ok h
    exact ⟨claims, hc, haud, hid, hjti, checkedAdd_eq_some.mp hretain⟩

theorem spent_proof {compact method requestUri : String} {target : DpopTarget} {now : UInt64} {proof : VerifiedDpopProof}
    (h : verifyDpopProof compact method requestUri target now = .ok proof) :
    (Token.proof compact).spent deployment d ↔ Spent ProofUse.key ProofUse.retainUntil (proof.thumbprint, proof.jtiHash)
      proof.retainUntil.toNat d.proofUses d.clock := by
  obtain ⟨jwk, claims, hc, -, -, hkey, hjti, -, hretain⟩ := verifyDpopProof_ok h
  rw [hkey, hjti, hretain]
  constructor
  · intro ⟨jwk', claims', hc', hs⟩
    obtain ⟨rfl, rfl⟩ := Prod.mk.inj (Option.some.inj (hc.symm.trans hc'))
    exact hs
  · intro hs
    exact ⟨jwk, claims, hc, hs⟩

theorem spent_assertion {key : ClientAssertionKey} {compact audience : String} {now : UInt64} {assertion : VerifiedClientAssertion}
    (h : deployment.verify key compact audience now = .ok assertion) :
    (Token.assertion compact).spent deployment d ↔ Spent AssertionUse.key AssertionUse.retainUntil
      (assertion.clientId, assertion.jti) assertion.retainUntil.toNat d.assertionUses d.clock := by
  obtain ⟨claims, hc, haud, hid, hjti, hretain⟩ := deployment.verify_ok h
  rw [hid, hjti, hretain]
  constructor
  · intro ⟨claims', audience', hc', haud', hs⟩
    obtain rfl := Option.some.inj (hc.symm.trans hc')
    obtain rfl := Audience.matchesExactly_unique haud haud'
    exact hs
  · intro hs
    exact ⟨claims, audience, hc, haud, hs⟩

theorem Token.spent_keeps {o : Option String} (h : d.Keeps o later) (hs : token.spent deployment d) :
    token.spent deployment later := by
  cases token with
  | proof compact =>
    obtain ⟨jwk, claims, hc, hs⟩ := hs
    exact ⟨jwk, claims, hc, h.proofs _ _ hs⟩
  | assertion compact =>
    obtain ⟨claims, audience, hc, haud, hs⟩ := hs
    exact ⟨claims, audience, hc, haud, h.assertions _ _ hs⟩

theorem step_keeps (deployment : Deployment) (call : Call) (d : Db) : d.Keeps call.operation (step deployment call d).2 := by
  cases call with
  | identityProof compact method requestUri target now operation requireNonce scope =>
    dsimp only [step]
    split
    · exact Db.Keeps.refl
    · exact Db.acceptIdentityProof_keeps
  | resourceProof compact method requestUri target now operation tokenHash requireNonce =>
    dsimp only [step]
    split
    · exact Db.Keeps.refl
    · exact Db.authorizeResource_keeps
  | assertion key compact audience now endpoint operation =>
    dsimp only [step]
    split
    · exact Db.Keeps.refl
    · exact Db.acceptClientAssertion_keeps
  | cleanup => exact d.cleanup_keeps
  | retain => exact d.retain_keeps
  | other tables clock => exact d.other_keeps tables clock

/-- An acceptance spends the token, which was not spent before. -/
theorem step_spends (htoken : call.token = some token) (hu : ∀ operation ∈ call.operation, d.unused operation)
    (h : (step deployment call d).1 = true) :
    ¬token.spent deployment d ∧ token.spent deployment (step deployment call d).2 := by
  cases call with
  | identityProof compact method requestUri target now operation requireNonce scope =>
    obtain rfl := Option.some.inj htoken
    dsimp only [step] at h ⊢
    cases hv : verifyDpopProof compact method requestUri target now with
    | error e => rw [hv] at h; cases h
    | ok proof =>
      rw [hv] at h
      rw [spent_proof hv, spent_proof hv]
      exact Db.acceptIdentityProof_spends h
  | resourceProof compact method requestUri target now operation tokenHash requireNonce =>
    obtain rfl := Option.some.inj htoken
    dsimp only [step] at h ⊢
    cases hv : verifyDpopProof compact method requestUri target now with
    | error e => rw [hv] at h; cases h
    | ok proof =>
      rw [hv] at h
      rw [spent_proof hv, spent_proof hv]
      dsimp only at h ⊢
      cases ha : (d.authorizeResource proof operation tokenHash requireNonce).1 with
      | error e => rw [ha] at h; cases h
      | ok subject =>
        cases subject with
        | none => rw [ha] at h; cases h
        | some subject => exact Db.authorizeResource_spends (hu operation rfl) ha
  | assertion key compact audience now endpoint operation =>
    obtain rfl := Option.some.inj htoken
    dsimp only [step] at h ⊢
    cases hv : deployment.verify key compact audience now with
    | error e => rw [hv] at h; cases h
    | ok assertion =>
      rw [hv] at h
      rw [spent_assertion hv, spent_assertion hv]
      exact Db.assertionBatch_spends (hu operation rfl) (Db.acceptClientAssertion_ok h)
  | cleanup => cases htoken
  | retain => cases htoken
  | other tables clock => cases htoken

/-! ## Runs -/

omit [AssertionFormats] in
theorem Fresh.first (h : Fresh (call :: calls) d) : ∀ operation ∈ call.operation, d.unused operation := by
  intro operation hop
  exact h.2 operation (List.mem_filterMap.mpr ⟨call, List.mem_cons_self, hop⟩)

theorem Fresh.rest (deployment : Deployment) (h : Fresh (call :: calls) d) : Fresh calls (step deployment call d).2 := by
  have hkeeps := step_keeps deployment call d
  cases hop : call.operation with
  | none =>
    rw [Fresh, List.filterMap_cons_none hop] at h
    rw [hop] at hkeeps
    exact ⟨h.1, fun operation ho => hkeeps.unused (h.2 operation ho) fun hn => by cases hn⟩
  | some drawn =>
    rw [Fresh, List.filterMap_cons_some hop] at h
    rw [hop] at hkeeps
    obtain ⟨hnot, hnodup⟩ := List.nodup_cons.mp h.1
    refine ⟨hnodup, fun operation ho => hkeeps.unused (h.2 operation (List.mem_cons_of_mem drawn ho)) fun hn => ?_⟩
    exact hnot (Option.some.inj hn ▸ ho)

theorem acceptances_spent (h : Fresh calls d) (hs : token.spent deployment d) : acceptances deployment token calls d = 0 := by
  induction calls generalizing d with
  | nil => rfl
  | cons call calls ih =>
    have hno : ¬(call.token = some token ∧ (step deployment call d).1 = true) :=
      fun ⟨htoken, hok⟩ => (step_spends htoken h.first hok).1 hs
    rw [acceptances, if_neg hno, Nat.zero_add]
    exact ih (h.rest deployment) (Token.spent_keeps (step_keeps deployment call d) hs)

theorem acceptances_le_one (h : Fresh calls d) : acceptances deployment token calls d ≤ 1 := by
  induction calls generalizing d with
  | nil => exact Nat.zero_le 1
  | cons call calls ih =>
    rw [acceptances]
    by_cases hok : call.token = some token ∧ (step deployment call d).1 = true
    · rw [if_pos hok, acceptances_spent (h.rest deployment) (step_spends hok.1 h.first hok.2).2]
    · rw [if_neg hok, Nat.zero_add]
      exact ih (h.rest deployment)

/-! ## Retention -/

/-- Two verifications of one text under one policy: the later one is before the end of the retention of the other. -/
theorem verifyWith_before {key key' : ClientAssertionKey} {compact audience audience' : String} {now now' : UInt64}
    {policy : ClientAssertionPolicy} {maxBytes maxBytes' : Nat} {fapi fapi' : Bool} {assertion assertion' : VerifiedClientAssertion}
    (h : key.verifyWith compact audience now policy maxBytes fapi = .ok assertion)
    (h' : key'.verifyWith compact audience' now' policy maxBytes' fapi' = .ok assertion') : now' < assertion.retainUntil := by
  obtain ⟨claims, hc, hsum, -⟩ := verifyWith_retain h
  obtain ⟨claims', hc', hsum', hlate⟩ := verifyWith_retain h'
  obtain rfl := Option.some.inj (hc.symm.trans hc')
  rw [UInt64.lt_iff_toNat_lt] at hlate ⊢
  omega

/-- The retention covers the window of acceptance, and no run accepts a token twice. -/
theorem replay_retention :
    (∀ compact method requestUri target now proof, verifyDpopProof compact method requestUri target now = .ok proof →
      proof.retainUntil.toNat = proof.issuedAt.toNat + 70 ∧
      ∀ method' requestUri' target' now' proof', verifyDpopProof compact method' requestUri' target' now' = .ok proof' →
        now' ≤ proof.retainUntil) ∧
    (∀ (key : ClientAssertionKey) compact audience now policy maxBytes assertion,
      key.verifyPrivateKeyJwt compact audience now policy maxBytes = .ok assertion →
      (∃ claims, assertionClaimsOf compact = some claims ∧
        assertion.retainUntil.toNat = claims.exp.toNat + policy.clockSkewSeconds.toNat) ∧
      ∀ (key' : ClientAssertionKey) now' assertion',
        key'.verifyPrivateKeyJwt compact audience now' policy maxBytes = .ok assertion' → now' ≤ assertion.retainUntil) ∧
    (∀ (key : ClientAssertionKey) compact issuer now maxBytes assertion,
      key.verifyFapiPrivateKeyJwt compact issuer now maxBytes = .ok assertion →
      (∃ claims, assertionClaimsOf compact = some claims ∧ assertion.retainUntil.toNat = claims.exp.toNat + 10) ∧
      ∀ (key' : ClientAssertionKey) now' assertion',
        key'.verifyFapiPrivateKeyJwt compact issuer now' maxBytes = .ok assertion' → now' ≤ assertion.retainUntil) ∧
    ∀ deployment calls d, Fresh calls d → ∀ token, acceptances deployment token calls d ≤ 1 := by
  refine ⟨?_, ?_, ?_, fun deployment calls d h token => acceptances_le_one h⟩
  · intro compact method requestUri target now proof h
    refine ⟨(verifyDpopProof_retain h).1, fun method' requestUri' target' now' proof' h' => ?_⟩
    rw [UInt64.le_iff_toNat_le, ← (verifyDpopProof_same h h').2.2.2]
    exact (verifyDpopProof_retain h').2
  · intro key compact audience now policy maxBytes assertion h
    obtain ⟨claims, hc, hsum, -⟩ := verifyWith_retain h
    exact ⟨⟨claims, hc, hsum⟩, fun key' now' assertion' h' => UInt64.le_of_lt (verifyWith_before h h')⟩
  · intro key compact issuer now maxBytes assertion h
    simp only [ClientAssertionKey.verifyFapiPrivateKeyJwt, bind_eq_ok] at h
    obtain ⟨policy, hp, h⟩ := h
    obtain rfl := fromSeconds_eq_ok hp
    obtain ⟨claims, hc, hsum, -⟩ := verifyWith_retain h
    refine ⟨⟨claims, hc, hsum⟩, fun key' now' assertion' h' => ?_⟩
    simp only [ClientAssertionKey.verifyFapiPrivateKeyJwt, bind_eq_ok] at h'
    obtain ⟨policy', hp', h'⟩ := h'
    obtain rfl := fromSeconds_eq_ok hp'
    exact UInt64.le_of_lt (verifyWith_before h h')

end

namespace Sample

def letters (n : Nat) (c : Char) : String := String.ofList (List.replicate n c)

/-- Thirty-two bytes are forty-three characters; every text is one proof or one assertion. -/
@[reducible] def formats : AssertionFormats where
  decode64 s := some (Text.bytes (if s.length = 43 then String.ofList (s.toList.take 32) else s))
  encode64 bytes :=
    String.ofList (bytes.map (fun b => Char.ofNat b.toNat) ++ if bytes.length = 32 then List.replicate 11 '~' else [])
  header _ := some ⟨"ES256", "dpop+jwt", ⟨"EC", "P-256", letters 32 'x' ++ letters 11 '~', letters 32 'y' ++ letters 11 '~',
    none, none, none⟩, []⟩
  claims _ := some ⟨"proof", "POST", "https://issuer.example/token", 1000, none, none⟩
  url s := some ⟨"https", some "issuer.example", "", none, s⟩
  scalars _ := true
  verify _ := true
  protectedHeader _ := some ⟨"ES256", "key", none⟩
  assertionClaims _ := some ⟨"client", "client", .one "https://issuer.example", 1060, 1000, none, "assertion"⟩

def compact : String := "h.c." ++ letters 64 's'

def clientKey : ClientAssertionKey := ⟨"client", "key", 1, 1, true, 4 :: List.replicate 64 7⟩

def deployment : Deployment := ⟨"https://issuer.example", true, ⟨60, 10⟩, 4096⟩

def store : Db := ⟨[], [], ⟨[], [], [], [], [⟨"client", true, 1, "private_key_jwt"⟩], [⟨"client", "key", 1, true⟩], []⟩, 1000⟩

/-- Each token is accepted, swept for, and presented again in its last second. -/
def calls : List Call :=
  [.identityProof compact "POST" "https://issuer.example/token" .token 1000 (letters 43 'a') false .authorizationServer,
    .assertion clientKey compact "https://issuer.example" 1000 "https://issuer.example/token" (letters 43 'b'),
    .other store.tables 1069, .cleanup, .retain,
    .assertion clientKey compact "https://issuer.example" 1069 "https://issuer.example/token" (letters 43 'c'),
    .other store.tables 1070,
    .identityProof compact "POST" "https://issuer.example/token" .token 1070 (letters 43 'd') false .authorizationServer]

end Sample

open Sample in
/-- Each of the two tokens is accepted, and only once. -/
theorem replay_retention_once :
    @acceptances formats deployment (.proof compact) calls store = 1 ∧
      @acceptances formats deployment (.assertion compact) calls store = 1 := by
  let _ := formats
  have h : Fresh calls store := by decide +kernel
  have hall : 1 ≤ acceptances deployment (.proof compact) calls store ∧ 1 ≤ acceptances deployment (.assertion compact) calls store := by
    decide +kernel
  exact ⟨Nat.le_antisymm (replay_retention.2.2.2 deployment calls store h (.proof compact)) hall.1,
    Nat.le_antisymm (replay_retention.2.2.2 deployment calls store h (.assertion compact)) hall.2⟩

end Mikaki.Oidc
