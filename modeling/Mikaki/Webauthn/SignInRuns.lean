import Mikaki.Webauthn.SignIn

/-!
# Counters over runs of sign-ins

A committed counter was verified against the row that it replaces: the row is
still of the revision that was read, and a revision says which row it is.
-/

namespace Mikaki.Webauthn.Login

open Concurrent Concurrent.Prog Rows Transactions Checks
open Mikaki.Vault (Failure SessionRow demand)

variable {d d' : Db}

/-! ## What a step leaves -/

/-- Rows stay; a credential of the same revision is the same, and what is consumed stays so. -/
structure Db.Later (d d' : Db) : Prop where
  passkeys : ∀ r ∈ d.passkeys, ∃ r' ∈ d'.passkeys, r'.credentialId = r.credentialId ∧ r'.backupEligible = r.backupEligible ∧
    r.revision ≤ r'.revision ∧ (r'.revision = r.revision → r' = r)
  logins : ∀ l ∈ d.logins, ∃ l' ∈ d'.logins, l'.key = l.key ∧ (l.consumed = true → l'.consumed = true)

structure Db.Keyed (d : Db) : Prop where
  passkeys : Unique PasskeyRow.credentialId d.passkeys
  logins : Unique LoginRow.key d.logins

theorem SignIn.run_some {p : SignIn} (h : p.run d = some d') :
    (∃ l ∈ d.logins, p.selects l) ∧ (∃ r ∈ d.passkeys, p.selectsKey r) ∧
      d'.logins = update p.selects (fun l => { l with consumed := true }) d.logins ∧
      d'.passkeys = update p.selectsKey p.verified d.passkeys ∧ d'.sessions = d.sessions ++ [p.session] := by
  simp only [SignIn.run, Option.bind_eq_bind, Option.bind_eq_some_iff, exists_unit, require_eq_some, insert_eq_some, Option.pure_def,
    Option.some.injEq] at h
  obtain ⟨hl, hp, -, -, sessions, ⟨-, rfl⟩, -, contexts, -, rfl⟩ := h
  exact ⟨hl, hp, rfl, rfl, rfl⟩

theorem fail_later (P : LoginRow → Prop) [DecidablePred P] {l : LoginRow} (hl : l ∈ d.logins) :
    ∃ l' ∈ update P (fun l => { l with failures := l.failures + 1 }) d.logins,
      l'.key = l.key ∧ (l.consumed = true → l'.consumed = true) := by
  by_cases hP : P l
  · exact ⟨_, mem_update.mpr ⟨l, hl, .inl ⟨hP, rfl⟩⟩, rfl, fun h => h⟩
  · exact ⟨l, mem_update.mpr ⟨l, hl, .inr ⟨hP, rfl⟩⟩, rfl, fun h => h⟩

theorem Tx.later {tx : Tx} (h : tx.run d = some d') : d.Later d' := by
  cases tx with
  | signIn p =>
    obtain ⟨-, -, hl, hp, -⟩ := SignIn.run_some h
    constructor
    · intro r hr
      rw [hp]
      by_cases hs : p.selectsKey r
      · refine ⟨p.verified r, mem_update.mpr ⟨r, hr, .inl ⟨hs, rfl⟩⟩, rfl, rfl, Nat.le_succ _, fun he => ?_⟩
        exact absurd he (Nat.succ_ne_self _)
      · exact ⟨r, mem_update.mpr ⟨r, hr, .inr ⟨hs, rfl⟩⟩, rfl, rfl, Nat.le_refl _, fun _ => rfl⟩
    · intro l hm
      rw [hl]
      by_cases hs : p.selects l
      · exact ⟨_, mem_update.mpr ⟨l, hm, .inl ⟨hs, rfl⟩⟩, rfl, fun _ => rfl⟩
      · exact ⟨l, mem_update.mpr ⟨l, hm, .inr ⟨hs, rfl⟩⟩, rfl, fun h => h⟩
  | fail ownerLogin txId browserHash =>
    obtain rfl := Option.some.inj h
    exact ⟨fun r hr => ⟨r, hr, rfl, rfl, Nat.le_refl _, fun _ => rfl⟩, fun l hm => fail_later _ hm⟩

theorem Tx.keyed {tx : Tx} (h : tx.run d = some d') (hk : d.Keyed) : d'.Keyed := by
  cases tx with
  | signIn p =>
    obtain ⟨-, -, hl, hp, -⟩ := SignIn.run_some h
    exact ⟨hp ▸ hk.passkeys.update fun _ _ _ => rfl, hl ▸ hk.logins.update fun _ _ _ => rfl⟩
  | fail ownerLogin txId browserHash =>
    obtain rfl := Option.some.inj h
    exact ⟨hk.passkeys, hk.logins.update fun _ _ _ => rfl⟩

theorem Drift.later (h : Drift d d') : d.Later d' := by
  obtain ⟨⟨registered, hp⟩, -, hl, -⟩ := h
  refine ⟨fun r hr => ?_, hl⟩
  exact ⟨r, hp ▸ List.mem_append_left _ hr, rfl, rfl, Nat.le_refl _, fun _ => rfl⟩

/-! ## What a sign-in has verified -/

def Request.response (self : Request) : Option Assertion := self.input.map LoginFinishInput.response

section
variable [Web]

/-- The counter and the backup state are those of the assertion, and advance the credential where it is of the revision read. -/
def Verified (request : Request) (p : SignIn) (d : Db) : Prop :=
  ∃ response r, request.response = some response ∧ response.id = p.credentialId ∧
    headerOf response = some (p.counter, r.backupEligible, p.backupState) ∧ (p.backupState = true → r.backupEligible = true) ∧
    r ∈ d.passkeys ∧ r.credentialId = p.credentialId ∧ p.revision ≤ r.revision ∧
    (r.revision = p.revision → r.backupEligible = false → Advances r.counter p.counter)

variable {request : Request} {p : SignIn}

theorem Verified.later (h : Verified request p d) (hl : d.Later d') : Verified request p d' := by
  obtain ⟨response, r, hres, hid, hheader, hbackup, hr, hr', hle, hadv⟩ := h
  obtain ⟨s, hs, hid', hbe, hrev, hsame⟩ := hl.passkeys r hr
  refine ⟨response, s, hres, hid, hbe ▸ hheader, hbe ▸ hbackup, hs, hid'.trans hr', hle.trans hrev, fun he => ?_⟩
  obtain rfl := hsame (by omega)
  exact hadv he

/-- Where the batch commits, the credential is the one that was verified. -/
theorem Verified.committed (h : Verified request p d) (hk : d.Keyed) (hrun : p.run d = some d') :
    ∃ response r, request.response = some response ∧ response.id = p.credentialId ∧
      headerOf response = some (p.counter, r.backupEligible, p.backupState) ∧ (p.backupState = true → r.backupEligible = true) ∧
      r ∈ d.passkeys ∧ p.selectsKey r ∧ (r.backupEligible = false → Advances r.counter p.counter) ∧ p.verified r ∈ d'.passkeys := by
  obtain ⟨response, r, hres, hid, hheader, hbackup, hr, hr', -, hadv⟩ := h
  obtain ⟨-, ⟨s, hs, hkey⟩, -, hp, -⟩ := SignIn.run_some hrun
  obtain rfl := hk.passkeys.eq hs hr (hkey.1.trans hr'.symm)
  exact ⟨response, s, hres, hid, hheader, hbackup, hr, hkey, hadv hkey.2, hp ▸ mem_update.mpr ⟨s, hr, .inl ⟨hkey, rfl⟩⟩⟩

/-! ## The discipline -/

section
variable {ι : Type} (requests : ι → Request)

def Tx.opens (k : Nat × String) : Tx → Bool
  | .signIn p => p.key == k
  | .fail .. => false

/-- What the log says of the database: a login opens one session and is consumed; what was accepted for a credential is as its
assertion says, and where it cannot be backed up, the counters have advanced to the stored one. -/
structure History (d : Db) (l : List (Entry ι Db Tx)) : Prop where
  keyed : d.Keyed
  once : ∀ k, l.countP (fun e => e.tx.opens k) ≤ 1
  spent : ∀ e ∈ l, ∀ p, e.tx = .signIn p → ∃ row ∈ d.logins, row.key = p.key ∧ row.consumed = true
  accepted : ∀ e ∈ l, ∀ p, e.tx = .signIn p → ∃ response r, (requests e.caller).response = some response ∧
    response.id = p.credentialId ∧ headerOf response = some (p.counter, r.backupEligible, p.backupState) ∧
    (p.backupState = true → r.backupEligible = true) ∧ r ∈ d.passkeys ∧ r.credentialId = p.credentialId ∧
    (r.backupEligible = false → p.counter ≤ r.counter)
  advancing : l.Pairwise fun e f => ∀ p q, e.tx = .signIn p → f.tx = .signIn q → p.credentialId = q.credentialId →
    ∀ r ∈ d.passkeys, r.credentialId = p.credentialId → r.backupEligible = false → Advances p.counter q.counter

/-- A sign-in is sent only as it was verified. -/
def verifying : Discipline ι Db Tx where
  inv := History requests
  sent i tx d _ := ∀ p, tx = .signIn p → Verified (requests i) p d
  noted _ _ _ _ := False

end

section
variable {ι : Type} {requests : ι → Request} {l : List (Entry ι Db Tx)} {i : ι} {tx : Tx}

/-- Nothing that was accepted is taken back when rows only go on; counters may do so too. -/
theorem History.later (h : History requests d l) (hk : d'.Keyed) (hl : d.Later d')
    (hcounter : ∀ r ∈ d.passkeys, ∀ r' ∈ d'.passkeys, r'.credentialId = r.credentialId → r.backupEligible = false → r.counter ≤ r'.counter) :
    History requests d' l where
  keyed := hk
  once := h.once
  spent e he p htx := by
    obtain ⟨row, hrow, hkey, hconsumed⟩ := h.spent e he p htx
    obtain ⟨row', hrow', hkey', hconsumed'⟩ := hl.logins row hrow
    exact ⟨row', hrow', hkey'.trans hkey, hconsumed' hconsumed⟩
  accepted e he p htx := by
    obtain ⟨response, r, hres, hid, hheader, hbackup, hr, hr', hle⟩ := h.accepted e he p htx
    obtain ⟨s, hs, hid', hbe, -, -⟩ := hl.passkeys r hr
    refine ⟨response, s, hres, hid, hbe ▸ hheader, hbe ▸ hbackup, hs, hid'.trans hr', fun hne => ?_⟩
    exact (hle (hbe ▸ hne)).trans (hcounter r hr s hs hid' (hbe ▸ hne))
  advancing := by
    refine h.advancing.imp_of_mem fun {e f} he hf hadv p q htx htx' hpq r' hr' hid hne => ?_
    obtain ⟨-, r, -, -, -, -, hr, hid', -⟩ := h.accepted e he p htx
    obtain ⟨s, hs, hsid, hbe, -, -⟩ := hl.passkeys r hr
    obtain rfl := hk.passkeys.eq hs hr' (hsid.trans (hid'.trans hid.symm))
    exact hadv p q htx htx' hpq r hr hid' (hbe ▸ hne)

/-- A transaction that was sent moves no counter back. -/
theorem counter_le (hk : d.Keyed) (hsent : ∀ p, tx = .signIn p → Verified (requests i) p d) (hrun : tx.run d = some d') :
    ∀ r ∈ d.passkeys, ∀ r' ∈ d'.passkeys, r'.credentialId = r.credentialId → r.backupEligible = false → r.counter ≤ r'.counter := by
  intro r hr r' hr' hid hne
  have hk' := Tx.keyed hrun hk
  cases tx with
  | signIn p =>
    obtain ⟨-, s, -, -, -, -, hs, hkey, hadv, hs'⟩ := (hsent p rfl).committed hk hrun
    by_cases he : r.credentialId = s.credentialId
    · obtain rfl := hk.passkeys.eq hr hs he
      obtain rfl := hk'.passkeys.eq hr' hs' hid
      exact (hadv hne).le
    · obtain ⟨-, -, -, hp, -⟩ := SignIn.run_some hrun
      have hsame : r ∈ d'.passkeys := by
        rw [hp]
        exact mem_update.mpr ⟨r, hr, .inr ⟨fun hsel => he (hsel.1.trans hkey.1.symm), rfl⟩⟩
      obtain rfl := hk'.passkeys.eq hr' hsame hid
      exact Nat.le_refl _
  | fail ownerLogin txId browserHash =>
    obtain rfl := Option.some.inj hrun
    obtain rfl := hk.passkeys.eq hr' hr hid
    exact Nat.le_refl _

theorem History.drift (h : History requests d l) (hd : Drift d d') : History requests d' l := by
  obtain ⟨⟨registered, hp⟩, hkp, -, hkl⟩ := id hd
  refine h.later ⟨hkp, hkl⟩ hd.later fun r hr r' hr' hid _ => ?_
  obtain rfl := hkp.eq hr' (hp ▸ List.mem_append_left _ hr : r ∈ d'.passkeys) hid
  exact Nat.le_refl _

theorem History.step (h : History requests d l) (hsent : ∀ p, tx = .signIn p → Verified (requests i) p d)
    (hrun : tx.run d = some d') : History requests d' (l ++ [⟨i, tx, d⟩]) := by
  have hold := h.later (Tx.keyed hrun h.keyed) (Tx.later hrun) (counter_le h.keyed hsent hrun)
  cases tx with
  | fail ownerLogin txId browserHash =>
    have hnot : ∀ e ∈ l ++ [⟨i, .fail ownerLogin txId browserHash, d⟩], ∀ p, e.tx = .signIn p → e ∈ l := by
      intro e he p htx
      rcases List.mem_append.mp he with he | he
      · exact he
      · rw [List.mem_singleton.mp he] at htx
        cases htx
    constructor
    · exact hold.keyed
    · intro k
      rw [List.countP_append]
      exact hold.once k
    · intro e he p htx
      exact hold.spent e (hnot e he p htx) p htx
    · intro e he p htx
      exact hold.accepted e (hnot e he p htx) p htx
    · refine List.pairwise_append.mpr ⟨hold.advancing, List.pairwise_singleton _ _, ?_⟩
      intro e he f hf p q htx htx'
      rw [List.mem_singleton.mp hf] at htx'
      cases htx'
  | signIn p =>
    obtain ⟨response, r, hres, hid, hheader, hbackup, hr, hkey, hadv, hr'⟩ := (hsent p rfl).committed h.keyed hrun
    obtain ⟨⟨row, hrow, hsel⟩, -, hlogins, -, -⟩ := SignIn.run_some hrun
    have hunspent : ∀ e ∈ l, ∀ q, e.tx = .signIn q → q.key ≠ p.key := by
      intro e he q htx hq
      obtain ⟨row', hrow', hkey', hconsumed⟩ := h.spent e he q htx
      obtain rfl := h.keyed.logins.eq hrow hrow' (hsel.1.trans (hkey'.trans hq).symm)
      rw [hsel.2.2.1] at hconsumed
      cases hconsumed
    constructor
    · exact hold.keyed
    · intro k
      rw [List.countP_append, List.countP_singleton]
      by_cases hk : p.key = k
      · have hzero : l.countP (fun e => e.tx.opens k) = 0 := by
          refine List.countP_eq_zero.mpr fun e he hopens => ?_
          cases htx : e.tx with
          | signIn q =>
            rw [htx] at hopens
            exact hunspent e he q htx ((beq_iff_eq.mp hopens).trans hk.symm)
          | fail => rw [htx] at hopens; cases hopens
        rw [hzero, Nat.zero_add]
        split
        · exact Nat.le_refl 1
        · exact Nat.zero_le 1
      · rw [if_neg (by simpa [Tx.opens] using hk)]
        exact h.once k
    · intro e he q htx
      rcases List.mem_append.mp he with he | he
      · exact hold.spent e he q htx
      · rw [List.mem_singleton.mp he] at htx
        obtain rfl := Tx.signIn.inj htx
        have hrow' : { row with consumed := true } ∈ d'.logins := by
          rw [hlogins]
          exact mem_update.mpr ⟨row, hrow, .inl ⟨hsel, rfl⟩⟩
        exact ⟨_, hrow', hsel.1, rfl⟩
    · intro e he q htx
      rcases List.mem_append.mp he with he | he
      · exact hold.accepted e he q htx
      · rw [List.mem_singleton.mp he] at htx ⊢
        obtain rfl := Tx.signIn.inj htx
        exact ⟨response, p.verified r, hres, hid, hheader, hbackup, hr', hkey.1, fun _ => Nat.le_refl _⟩
    · refine List.pairwise_append.mpr ⟨hold.advancing, List.pairwise_singleton _ _, ?_⟩
      intro e he f hf q q' htx htx' hqq s hs hsid hne
      rw [List.mem_singleton.mp hf] at htx'
      obtain rfl := Tx.signIn.inj htx'
      obtain rfl := hold.keyed.passkeys.eq hs hr' (hsid.trans (hqq.trans hkey.1.symm))
      obtain ⟨-, t, -, -, -, -, ht, htid, hle⟩ := h.accepted e he q htx
      obtain rfl := h.keyed.passkeys.eq ht hr (htid.trans (hqq.trans hkey.1.symm))
      exact (hadv hne).of_le (hle hne)

/-! ## Programs -/

variable {site : Site} {draw : ℕ → String}

theorem gives_lift {α : Type} (x : Except Failure α) :
    Ensures (world signIns) (contract signIns (verifying requests)) i (fun _ => True) (lift x) fun a _ => x = .ok a := by
  cases x with
  | error e => exact .throw
  | ok a => exact Vault.gives_pure rfl

theorem gives_transaction (tx browserHash : String) :
    Ensures (world signIns) (contract signIns (verifying requests)) i (fun _ => True) (transaction tx browserHash) fun _ _ => True := by
  refine spec_any.andThen fun d _ => ?_
  cases d.openLogin 0 tx browserHash with
  | some row => exact Vault.gives_pure trivial
  | none =>
    refine spec_any.andThen fun d _ => ?_
    cases d.openLogin 1 tx browserHash with
    | some row => exact Vault.gives_pure trivial
    | none => exact spec_any.andThen fun d _ => Vault.gives_pure trivial

omit [Web] in
theorem credential_some {id : String} {x : Vault.CredentialRow × Vault.AccountRow × PasskeyRow} (h : d.credential id = some x) :
    x.2.2 ∈ d.passkeys ∧ x.2.2.credentialId = x.1.credentialId ∧ x.1.credentialId = id := by
  simp only [Db.credential, Option.bind_eq_bind, Option.bind_eq_some_iff, Option.pure_def, Option.some.injEq] at h
  obtain ⟨cr, hcr, a, -, p, hp, rfl⟩ := h
  have hid := List.find?_some hcr
  have hkey := List.find?_some hp
  simp only [decide_eq_true_eq] at hid hkey
  exact ⟨List.mem_of_find?_eq_some hp, hkey, hid.1⟩

theorem verifying_keeps : Keeps signIns (verifying requests) := by
  refine ⟨⟨?_, ?_⟩, fun i tx => ⟨?_, ?_⟩⟩
  · rintro j tx d d' l h (hsent | hnoted) hrun -
    · exact h.step hsent hrun
    · exact hnoted.elim
  · intro d d' l h hd _
    exact h.drift hd
  · intro j tx' d d' l _ _ hrun hsent p hp
    exact (hsent p hp).later (Tx.later hrun)
  · intro d d' l _ hd hsent p hp
    exact (hsent p hp).later hd.later

/-- What is known of the credential that was read, while others go on. -/
def Read (x : Vault.CredentialRow × Vault.AccountRow × PasskeyRow) (d : Db) : Prop :=
  ∃ r ∈ d.passkeys, r.credentialId = x.1.credentialId ∧ r.backupEligible = x.2.2.backupEligible ∧ x.2.2.revision ≤ r.revision ∧
    (r.revision = x.2.2.revision → r = x.2.2)

omit [Web] in
theorem Read.later {x : Vault.CredentialRow × Vault.AccountRow × PasskeyRow} (h : Read x d) (hl : d.Later d') : Read x d' := by
  obtain ⟨r, hr, hid, hbe, hle, hsame⟩ := h
  obtain ⟨s, hs, hid', hbe', hle', hsame'⟩ := hl.passkeys r hr
  refine ⟨s, hs, hid'.trans hid, hbe'.trans hbe, hle.trans hle', fun he => ?_⟩
  obtain rfl := hsame' (by omega)
  exact hsame he

theorem finish_valid (i : ι) :
    Ensures (world signIns) (contract signIns (verifying requests)) i (fun _ => True) (finish site (requests i) draw)
      fun _ _ => True := by
  refine (Vault.gives_fails _ _).andThen fun _ _ => (Vault.gives_demand _ _).andThen fun browser _ => ?_
  refine (Vault.gives_demand _ _).andThen fun input hinput => (Vault.gives_fails _ _).andThen fun _ _ => ?_
  refine (gives_transaction _ _).andThen fun row _ => (Vault.gives_demand _ _).andThen fun login _ => ?_
  refine (gives_lift _).andThen fun _ _ => ?_
  have hkept : ∀ d₀ : Db, Kept signIns (verifying requests) fun d _ => ∀ x, d₀.credential input.response.id = some x → Read x d := by
    intro d₀
    constructor
    · intro j tx d d' l _ _ hrun hread x hx
      exact (hread x hx).later (Tx.later hrun)
    · intro d d' l _ hd hread x hx
      exact (hread x hx).later hd.later
  have hread : ∀ d l, History requests d l → ∀ x, d.credential input.response.id = some x → Read x d := by
    intro d l _ x hx
    obtain ⟨hp, hid, -⟩ := credential_some hx
    exact ⟨x.2.2, hp, hid, rfl, Nat.le_refl _, fun _ => rfl⟩
  refine (spec_read (.const True) hkept hread).bind fun d₀ => ?_
  refine Ensures.weaken (P := fun s => ∀ x, d₀.credential input.response.id = some x → Read x s.db) ?_ fun _ _ hs => hs.2
  have hF := (hkept d₀).lasting (ε := Failure)
  refine .carry hF (Vault.gives_demand _ _) fun x hx => ?_
  obtain ⟨credential, account, passkey⟩ := x
  refine .carry hF (Vault.gives_demand _ _) fun rpId _ => .carry hF (Vault.gives_demand _ _) fun now _ => ?_
  cases hproof : (ceremony site rpId login (hash browser) input.response).authenticate (hash browser) now 5 (stored passkey)
      input.response with
  | error e =>
    refine (spec_commit verifying_keeps fun _ _ _ p hp => ?_).bind fun _ => .throw
    cases hp
  | ok proof =>
    refine .carry hF (Vault.gives_fails _ _) fun _ _ => .carry hF (gives_lift _) fun _ _ => ?_
    refine (spec_commit verifying_keeps fun s _ hs p hp => ?_).bind fun _ => .pure fun _ _ _ => trivial
    cases hp
    -- the response is of the credential that was read, and of its revision nothing else can be there
    obtain ⟨hid, hheader, hbackup, hadv⟩ := authenticate_ok (Ceremony.authenticate_ok hproof)
    obtain ⟨r, hr, hrid, hbe, hle, hsame⟩ := hs _ hx
    obtain ⟨-, hpasskey, -⟩ := credential_some hx
    refine ⟨input.response, r, ?_, hid.trans hpasskey, ?_, ?_, hr, hrid, hle, fun he hne => ?_⟩
    · rw [Request.response, hinput, Option.map_some]
    · rw [hbe]
      exact hheader
    · rw [hbe]
      exact hbackup
    · obtain rfl := hsame he
      exact hadv hne

end

end

/-! ## The law of a counter -/

/-- All zero up to some point, and positive and strictly increasing from there on. -/
def CounterLaw (counters : List Nat) : Prop :=
  ∃ zeros rest, counters = zeros ++ rest ∧ (∀ c ∈ zeros, c = 0) ∧ (∀ c ∈ rest, 0 < c) ∧ rest.Pairwise (· < ·)

theorem counterLaw_of_pairwise {counters : List Nat} (h : counters.Pairwise Advances) : CounterLaw counters := by
  induction counters with
  | nil => exact ⟨[], [], rfl, List.forall_mem_nil _, List.forall_mem_nil _, .nil⟩
  | cons c counters ih =>
    obtain ⟨hc, hrest⟩ := List.pairwise_cons.mp h
    by_cases hzero : c = 0
    · obtain ⟨zeros, rest, rfl, hz, hp, hlt⟩ := ih hrest
      exact ⟨c :: zeros, rest, rfl, List.forall_mem_cons.mpr ⟨hzero, hz⟩, hp, hlt⟩
    · have hpos : ∀ a ∈ c :: counters, 0 < a := by
        intro a ha
        rcases List.mem_cons.mp ha with rfl | ha
        · omega
        · exact Nat.lt_of_lt_of_le (by omega) (hc a ha).le
      refine ⟨[], c :: counters, rfl, List.forall_mem_nil _, hpos, h.imp_of_mem fun {a b} ha _ hab => ?_⟩
      rcases hab with ⟨-, ha0⟩ | hlt
      · exact absurd ha0 (hpos a ha).ne'
      · exact hlt

/-- Where no two elements with the property may follow each other, one has it at most. -/
theorem countP_le_one_of_pairwise {α : Type} {R : α → α → Prop} {p : α → Bool} {l : List α} (h : l.Pairwise R)
    (hp : ∀ a ∈ l, ∀ b ∈ l, p a = true → p b = true → ¬R a b) : l.countP p ≤ 1 := by
  induction l with
  | nil => exact Nat.zero_le 1
  | cons a l ih =>
    obtain ⟨ha, hl⟩ := List.pairwise_cons.mp h
    by_cases hpa : p a = true
    · have hzero : l.countP p = 0 := by
        refine List.countP_eq_zero.mpr fun b hb hpb => ?_
        exact hp a List.mem_cons_self b (List.mem_cons_of_mem a hb) hpa hpb (ha b hb)
      rw [List.countP_cons_of_pos hpa, hzero]
    · rw [List.countP_cons_of_neg hpa]
      exact ih hl fun b hb c hc => hp b (List.mem_cons_of_mem a hb) c (List.mem_cons_of_mem a hc)

/-! ## Every run -/

section
variable {ι : Type}

/-- The sessions that a login has opened. -/
def opened (k : Nat × String) (l : List (Entry ι Db Tx)) : List SessionRow :=
  l.filterMap fun e =>
    match e.tx with
    | .signIn p => if p.key = k then some p.session else none
    | .fail .. => none

/-- The counters that were accepted for a credential, in the order of their commits. -/
def counters (credential : String) (l : List (Entry ι Db Tx)) : List Nat :=
  l.filterMap fun e =>
    match e.tx with
    | .signIn p => if p.credentialId = credential then some p.counter else none
    | .fail .. => none

/-- The entry accepts this assertion. -/
def accepts (requests : ι → Request) (assertion : Assertion) (e : Entry ι Db Tx) : Bool :=
  match e.tx with
  | .signIn _ => (requests e.caller).response == some assertion
  | .fail .. => false

theorem opened_some {k : Nat × String} {e : Entry ι Db Tx} {s : SessionRow}
    (h : (match e.tx with | .signIn p => if p.key = k then some p.session else none | .fail .. => none) = some s) :
    e.tx.opens k = true := by
  cases htx : e.tx with
  | signIn p =>
    rw [htx] at h
    by_cases hk : p.key = k
    · exact beq_iff_eq.mpr hk
    · dsimp only at h
      rw [if_neg hk] at h
      cases h
  | fail => rw [htx] at h; cases h

theorem counters_some {credential : String} {e : Entry ι Db Tx} {c : Nat}
    (h : (match e.tx with | .signIn p => if p.credentialId = credential then some p.counter else none | .fail .. => none) = some c) :
    ∃ p, e.tx = .signIn p ∧ p.credentialId = credential ∧ p.counter = c := by
  cases htx : e.tx with
  | signIn p =>
    rw [htx] at h
    by_cases hk : p.credentialId = credential
    · dsimp only at h
      rw [if_pos hk] at h
      exact ⟨p, rfl, hk, Option.some.inj h⟩
    · dsimp only at h
      rw [if_neg hk] at h
      cases h
  | fail => rw [htx] at h; cases h

theorem accepts_some {requests : ι → Request} {assertion : Assertion} {e : Entry ι Db Tx} (h : accepts requests assertion e = true) :
    ∃ p, e.tx = .signIn p ∧ (requests e.caller).response = some assertion := by
  unfold accepts at h
  split at h
  · rename_i p htx
    exact ⟨p, htx, beq_iff_eq.mp h⟩
  · cases h

end

section
variable [Web] {ι : Type} {requests : ι → Request} {l : List (Entry ι Db Tx)}

theorem History.opened_once (h : History requests d l) (k : Nat × String) : (opened k l).length ≤ 1 := by
  refine Nat.le_trans ?_ (h.once k)
  rw [opened, List.length_filterMap_eq_countP]
  refine List.countP_mono_left fun e _ he => ?_
  obtain ⟨s, hs⟩ := Option.isSome_iff_exists.mp he
  exact opened_some hs

theorem History.law (h : History requests d l) {r : PasskeyRow} (hr : r ∈ d.passkeys) (hne : r.backupEligible = false) :
    CounterLaw (counters r.credentialId l) := by
  refine counterLaw_of_pairwise (List.pairwise_filterMap.mpr (h.advancing.imp fun {e f} hadv b hb c hc => ?_))
  obtain ⟨p, htx, hid, rfl⟩ := counters_some hb
  obtain ⟨q, htx', hid', rfl⟩ := counters_some hc
  exact hadv p q htx htx' (hid.trans hid'.symm) r hr hid.symm hne

theorem History.accepts_once (h : History requests d l) {assertion : Assertion} {counter : Nat} {backupState : Bool}
    (hheader : headerOf assertion = some (counter, false, backupState)) (hpos : counter ≠ 0) :
    l.countP (accepts requests assertion) ≤ 1 := by
  refine countP_le_one_of_pairwise h.advancing fun e he f hf hacc hacc' hadv => ?_
  obtain ⟨p, htx, hres⟩ := accepts_some hacc
  obtain ⟨q, htx', hres'⟩ := accepts_some hacc'
  obtain ⟨response, r, hr, hid, hh, -, hmem, hrid, -⟩ := h.accepted e he p htx
  obtain ⟨response', r', hr', hid', hh', -⟩ := h.accepted f hf q htx'
  obtain rfl := Option.some.inj (hres.symm.trans hr)
  obtain rfl := Option.some.inj (hres'.symm.trans hr')
  obtain ⟨hcp, hbe, -⟩ := by simpa only [Option.some.injEq, Prod.mk.injEq] using hheader.symm.trans hh
  obtain ⟨hcq, -, -⟩ := by simpa only [Option.some.injEq, Prod.mk.injEq] using hheader.symm.trans hh'
  rcases hadv p q htx htx' (hid.symm.trans hid') r hmem hrid hbe.symm with ⟨-, hzero⟩ | hlt
  · omega
  · omega

theorem history_of_runs [DecidableEq ι] {site : Site} {draw : ι → Nat → String}
    {c : Config ι (Shared ι Db Tx) (Transactions.Request Failure Db Tx) Transactions.Request.Reply (Except Failure String)}
    (hd : d.Keyed) (hr : Runs signIns (fun i p => p = (finish site (requests i) (draw i)).run) d c) :
    Good (world signIns) (contract signIns (verifying requests)) (fun _ _ _ => True) c := by
  refine Runs.good verifying_keeps (fun i p hp => ?_) ⟨hd, ?_, ?_, ?_, .nil⟩ hr
  · rw [hp]
    exact Valid.post (Valid.weaken (finish_valid i) fun _ _ _ => trivial) fun _ _ _ _ => trivial
  · intro k
    exact Nat.zero_le 1
  · intro e he
    cases he
  · intro e he
    cases he

/-- Over any run a credential keeps its eligibility for backup, and without it its counter does not go back. -/
theorem passkey_later [DecidableEq ι] {site : Site} {draw : ι → Nat → String}
    {c c' : Config ι (Shared ι Db Tx) (Transactions.Request Failure Db Tx) Transactions.Request.Reply (Except Failure String)}
    (hd : d.Keyed) (hr : Runs signIns (fun i p => p = (finish site (requests i) (draw i)).run) d c)
    (hs : Steps (world signIns) (fun i p => p = (finish site (requests i) (draw i)).run) c c') {r : PasskeyRow}
    (hm : r ∈ c.state.db.passkeys) :
    ∃ r' ∈ c'.state.db.passkeys, r'.credentialId = r.credentialId ∧ r'.backupEligible = r.backupEligible ∧
      (r.backupEligible = false → r.counter ≤ r'.counter) := by
  have hsound : Concurrent.Sound (world signIns) (contract signIns (verifying requests))
      (fun i p => p = (finish site (requests i) (draw i)).run) fun _ _ _ => True := by
    refine sound verifying_keeps fun i p hp => ?_
    rw [hp]
    exact Valid.post (Valid.weaken (finish_valid i) fun _ _ _ => trivial) fun _ _ _ _ => trivial
  have hstep : ∀ {e e' : Db}, e.Later e' →
      (∀ s ∈ e.passkeys, ∀ s' ∈ e'.passkeys, s'.credentialId = s.credentialId → s.backupEligible = false → s.counter ≤ s'.counter) →
      (∃ s ∈ e.passkeys, s.credentialId = r.credentialId ∧ s.backupEligible = r.backupEligible ∧
        (r.backupEligible = false → r.counter ≤ s.counter)) →
      ∃ s ∈ e'.passkeys, s.credentialId = r.credentialId ∧ s.backupEligible = r.backupEligible ∧
        (r.backupEligible = false → r.counter ≤ s.counter) := by
    intro e e' hlater hcounter ⟨s, hs, hid, hbe, hle⟩
    obtain ⟨s', hs', hid', hbe', -, -⟩ := hlater.passkeys s hs
    refine ⟨s', hs', hid'.trans hid, hbe'.trans hbe, fun hne => ?_⟩
    exact (hle hne).trans (hcounter s hs s' hs' hid' (hbe.trans hne))
  refine Good.steps_invariant hsound (history_of_runs hd hr) hs (J := fun s => ∃ r' ∈ s.db.passkeys,
    r'.credentialId = r.credentialId ∧ r'.backupEligible = r.backupEligible ∧ (r.backupEligible = false → r.counter ≤ r'.counter))
    ?_ ?_ ⟨r, hm, rfl, rfl, fun _ => Nat.le_refl _⟩
  · intro i s s' hinv hJ hg
    obtain ⟨he, -⟩ | ⟨tx, hsent | hnoted, e, hrun, rfl⟩ := hg
    · rw [he]
      exact hJ
    · exact hstep (Tx.later hrun) (counter_le hinv.1.keyed hsent hrun) hJ
    · exact hnoted.elim
  · intro s s' hinv hJ he
    cases he with
    | @late i tx before after e hf hrun =>
      have hsent := hinv.2 (i, tx) (by rw [hf]; simp)
      exact hstep (Tx.later hrun) (counter_le hinv.1.keyed hsent hrun) hJ
    | givenUp _ => exact hJ
    | drift hdrift =>
      obtain ⟨⟨registered, hp⟩, hkp, -, -⟩ := id hdrift
      refine hstep hdrift.later (fun a ha a' ha' hid _ => ?_) hJ
      obtain rfl := hkp.eq ha' (hp ▸ List.mem_append_left _ ha) hid
      exact Nat.le_refl _

/-- A login opens one session at most. The counters of a credential that cannot be backed up follow the law and never go back,
and no assertion with a counter is accepted twice. What is accepted agrees with the credential's eligibility for backup. -/
theorem sign_in_runs [DecidableEq ι] {site : Site} {draw : ι → Nat → String}
    {c : Config ι (Shared ι Db Tx) (Transactions.Request Failure Db Tx) Transactions.Request.Reply (Except Failure String)}
    (hd : d.Keyed) (hr : Runs signIns (fun i p => p = (finish site (requests i) (draw i)).run) d c) :
    (∀ k, (opened k c.state.log).length ≤ 1) ∧
    (∀ r ∈ c.state.db.passkeys, r.backupEligible = false → CounterLaw (counters r.credentialId c.state.log)) ∧
    (∀ assertion counter backupState, headerOf assertion = some (counter, false, backupState) → counter ≠ 0 →
      c.state.log.countP (accepts requests assertion) ≤ 1) ∧
    (∀ c', Steps (world signIns) (fun i p => p = (finish site (requests i) (draw i)).run) c c' → ∀ r ∈ c.state.db.passkeys,
      ∃ r' ∈ c'.state.db.passkeys, r'.credentialId = r.credentialId ∧ r'.backupEligible = r.backupEligible ∧
        (r.backupEligible = false → r.counter ≤ r'.counter)) ∧
    ∀ e ∈ c.state.log, ∀ p, e.tx = .signIn p → ∃ response, (requests e.caller).response = some response ∧
      ∃ r ∈ c.state.db.passkeys, r.credentialId = p.credentialId ∧
        headerOf response = some (p.counter, r.backupEligible, p.backupState) ∧ (p.backupState = true → r.backupEligible = true) := by
  have h : History requests c.state.db c.state.log := (history_of_runs hd hr).1.1
  refine ⟨h.opened_once, fun r hm hne => h.law hm hne, fun assertion counter backupState hheader hpos => ?_, fun c' hs r hm => ?_,
    fun e he p htx => ?_⟩
  · exact h.accepts_once hheader hpos
  · exact passkey_later hd hr hs hm
  · obtain ⟨response, r, hres, -, hheader, hbackup, hmem, hid, -⟩ := h.accepted e he p htx
    exact ⟨response, hres, r, hmem, hid, hheader, hbackup⟩

end

/-! ## Two sign-ins -/

namespace Sample

def letters (n : Nat) (c : Char) : String := String.ofList (List.replicate n c)

def text (bytes : List UInt8) : String := String.ofList (bytes.map fun b => Char.ofNat b.toNat)

/-- A byte is a character, and every key verifies. -/
@[reducible] def formats : Web where
  decode64 s := some (s.toList.map fun c => UInt8.ofNat c.toNat)
  encode64 := text
  clientData _ _ _ := .ok ⟨"webauthn.get", letters 32 'c', "https://op.example", false, none, none⟩
  cbor bytes _ := .ok (.other, bytes.length)
  publicKey _ := .ok ⟨-7, []⟩
  verify _ _ _ := .ok ()
  attestation _ _ _ _ _ _ := .ok ()
  hash := id
  url _ := some ⟨"https://op.example", some "op.example", "/vault", [], none⟩
  originMember _ _ := none

def site : Site := ⟨"https://op.example", 4096, 3600, none⟩

def login (c : Char) : LoginRow :=
  ⟨2, letters 43 c, "browser", "https://op.example/vault", "mikaki-internal-web", letters 32 'c', 200, false, 0, none, false⟩

def db (be : Bool) : Db :=
  { logins := [login 't', login 'u'], passkeys := [⟨"passkey", "key", "user", 0, be, false, 1⟩]
    credentials := [⟨"passkey", "owner", true⟩], accounts := [⟨"owner", 1, true⟩], sessions := [], contexts := []
    connections := [], unixepoch := 100 }

theorem db_keyed (be : Bool) : (db be).Keyed := ⟨List.pairwise_singleton _ _, by unfold Rows.Unique; cases be <;> decide⟩

def assertion (be : Bool) (counter : UInt8) : Assertion :=
  ⟨"passkey", "data", text (Sha.sha256 (Text.bytes "op.example") ++ [if be = true then 13 else 5, 0, 0, 0, counter]), "signature",
    some "user"⟩

/-- The first sign-in says five, the others say three. -/
def request (be : Bool) : Nat → Request
  | 0 => ⟨some "https://op.example", some "browser", some ⟨letters 43 't', true, assertion be 5⟩, some 100⟩
  | _ => ⟨some "https://op.example", some "browser", some ⟨letters 43 'u', true, assertion be 3⟩, some 100⟩

def draw (i n : Nat) : String := letters (i + 1) 'a' ++ letters (n + 1) 'b'

def moves (be : Bool) : List (Move Nat Failure Db Tx (Except Failure String)) :=
  let _ := formats
  let turn (i n : Nat) : List (Move Nat Failure Db Tx (Except Failure String)) :=
    .start i (finish site (request be i) (draw i)).run :: List.replicate n (.go i)
  turn 0 5 ++ turn 1 5

theorem played (be : Bool) :
    (play signIns Failure.server (moves be) (.initial (.initial (db be)))).map
      (fun c => (counters "passkey" c.state.log, c.state.db.passkeys)) =
    some (if be = true then ([5, 3], [⟨"passkey", "key", "user", 3, true, false, 3⟩])
      else ([5], [⟨"passkey", "key", "user", 5, false, false, 2⟩])) := by
  cases be <;> decide +kernel

/-- The moves are a run. -/
theorem runs (be : Bool) :
    let _ := formats
    ∃ c : Config Nat (Shared Nat Db Tx) (Transactions.Request Failure Db Tx) Transactions.Request.Reply (Except Failure String),
      Runs signIns (fun i p => p = (finish site (request be i) (draw i)).run) (db be) c ∧
        (counters "passkey" c.state.log, c.state.db.passkeys) =
          if be = true then ([5, 3], [⟨"passkey", "key", "user", 3, true, false, 3⟩])
          else ([5], [⟨"passkey", "key", "user", 5, false, false, 2⟩]) := by
  intro _
  obtain ⟨c, hc, he⟩ := Option.map_eq_some_iff.mp (played be)
  refine ⟨c, play_steps (fun i p hm => ?_) (fun f hm => ?_) hc, he⟩
  · simp only [moves, List.mem_append, List.mem_cons, List.mem_replicate, reduceCtorEq, and_false, or_false, Move.start.injEq] at hm
    rcases hm with ⟨rfl, rfl⟩ | ⟨rfl, rfl⟩
    all_goals rfl
  · simp [moves] at hm

end Sample

/-- Without backup the second sign-in is refused, and the law holds. -/
theorem sign_in_runs_refused :
    let _ := Sample.formats
    ∃ c : Config Nat (Shared Nat Db Tx) (Transactions.Request Failure Db Tx) Transactions.Request.Reply (Except Failure String),
      Runs signIns (fun i p => p = (finish Sample.site (Sample.request false i) (Sample.draw i)).run) (Sample.db false) c ∧
        counters "passkey" c.state.log = [5] ∧ CounterLaw (counters "passkey" c.state.log) := by
  intro _
  obtain ⟨c, hr, he⟩ := Sample.runs false
  obtain ⟨hcounters, hpasskeys⟩ := Prod.mk.inj he
  refine ⟨c, hr, hcounters, (sign_in_runs (Sample.db_keyed false) hr).2.1 ⟨"passkey", "key", "user", 5, false, false, 2⟩ ?_ rfl⟩
  rw [hpasskeys]
  exact List.mem_singleton_self _

/-- A credential that may be backed up signs in with any counter. -/
theorem sign_in_runs_backed_up :
    ¬∀ [Web] (requests : Nat → Request) (site : Site) (draw : Nat → Nat → String) (d : Db)
      (c : Config Nat (Shared Nat Db Tx) (Transactions.Request Failure Db Tx) Transactions.Request.Reply (Except Failure String)),
      d.Keyed → Runs signIns (fun i p => p = (finish site (requests i) (draw i)).run) d c →
        ∀ r ∈ c.state.db.passkeys, CounterLaw (counters r.credentialId c.state.log) := by
  intro h
  let _ := Sample.formats
  obtain ⟨c, hr, he⟩ := Sample.runs true
  obtain ⟨hcounters, hpasskeys⟩ := Prod.mk.inj he
  have hlaw := h (Sample.request true) Sample.site Sample.draw (Sample.db true) c (Sample.db_keyed true) hr
    ⟨"passkey", "key", "user", 3, true, false, 3⟩ (by rw [hpasskeys]; exact List.mem_singleton_self _)
  rw [hcounters] at hlaw
  obtain ⟨zeros, rest, hsplit, hz, -, hlt⟩ := hlaw
  cases zeros with
  | nil =>
    rw [List.nil_append] at hsplit
    rw [← hsplit] at hlt
    exact absurd hlt (by decide)
  | cons z zeros =>
    obtain ⟨rfl, -⟩ := List.cons.inj hsplit
    exact absurd (hz 5 List.mem_cons_self) (by decide)

end Mikaki.Webauthn.Login
