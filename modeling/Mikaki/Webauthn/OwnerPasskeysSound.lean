import Mikaki.Webauthn.OwnerPasskeys

/-!
# What the log says of registrations

A registration is inserted, is consumed once, and counts at most five failed
proofs. Rows are swept, so that what is said of a transaction is said by the
log: neither registers nor failures outnumber what its insertions allow.
-/

namespace Mikaki.Webauthn.OwnerPasskeys

open Concurrent Concurrent.Prog Rows Transactions Checks
open Mikaki.Vault (AccountRow Accounts BoundSessionRow CredentialRow Failure Owner SessionRow demand encode64)
open Login (PasskeyRow Site)

variable {d d' : Db}

/-! ## What a statement does -/

/-- The row as it was inserted. -/
def RegistrationRow.initial (r : RegistrationRow) : RegistrationRow :=
  { r with failures := 0, credentialId := none, requestHash := none, consumed := false }

theorem Start.row_some {p : Start} {r : RegistrationRow} (h : p.row d = some r) :
    r.transactionId = p.transactionId ∧ r.accountId = p.accountId ∧ r.sessionHash = p.secretHash ∧ r.failures = 0 ∧
      r.consumed = false ∧ r.initial = r ∧ ∃ ss ∈ d.sessions, ss.accountId = p.accountId ∧ d.fresh p.secretHash p.now ss := by
  simp only [Start.row, Option.bind_eq_bind, Option.bind_eq_some_iff, exists_unit, require_eq_some, Option.pure_def,
    Option.some.injEq] at h
  obtain ⟨ss, hss, q, -, -, -, rfl⟩ := h
  have hp := List.find?_some hss
  simp only [decide_eq_true_eq] at hp
  exact ⟨rfl, rfl, rfl, rfl, rfl, rfl, ss, List.mem_of_find?_eq_some hss, hp⟩

theorem Start.run_some {p : Start} (h : p.run d = some d') :
    (p.row d = none ∧ d' = d) ∨ ∃ row, p.row d = some row ∧ (∀ r ∈ d.registrations, r.transactionId ≠ row.transactionId) ∧
      d' = { d with registrations := d.registrations ++ [row] } := by
  unfold Start.run at h
  split at h
  · rename_i hrow
    exact .inl ⟨hrow, (Option.some.inj h).symm⟩
  · rename_i row hrow
    obtain ⟨registrations, hins, rfl⟩ := Option.map_eq_some_iff.mp h
    obtain ⟨⟨-, hfree⟩, rfl⟩ := insert_eq_some.mp hins
    exact .inr ⟨row, hrow, hfree, rfl⟩

theorem Register.run_some {p : Register} (h : p.run d = some d') :
    (∃ r ∈ d.registrations, p.selects r) ∧ (∃ ss ∈ d.sessions, ss.accountId = p.accountId ∧ d.fresh p.secretHash p.now ss) ∧
      d.active p.accountId < 10 ∧ (∀ c ∈ d.credentials, c.credentialId ≠ p.proof.id) ∧
      (∀ q ∈ d.passkeys, q.credentialId ≠ p.proof.id) ∧
      d' = { d with
        registrations := update p.selects p.consume d.registrations, credentials := d.credentials ++ [p.credential]
        passkeys := d.passkeys ++ [p.passkey] } := by
  simp only [Register.run, Option.bind_eq_bind, Option.bind_eq_some_iff, exists_unit, require_eq_some, insert_eq_some, Option.pure_def,
    Option.some.injEq] at h
  obtain ⟨hr, hss, hactive, credentials, ⟨⟨-, hc⟩, rfl⟩, passkeys, ⟨⟨-, hp⟩, rfl⟩, rfl⟩ := h
  exact ⟨hr, hss, hactive, hc, hp, rfl⟩

/-! ## Credentials -/

/-- Ids are of one credential each, and every secret is of the session that it was made for. -/
structure Db.Sound (session : String → String) (d : Db) : Prop where
  credentials : Unique CredentialRow.credentialId d.credentials
  passkeys : Unique PasskeyRow.credentialId d.passkeys
  linked : ∀ sx ∈ d.contexts, sx.ssoId = session sx.secretHash

/-- The credentials that are there stay as they are, and nobody gets an eleventh active one. -/
theorem Tx.credentials {tx : Tx} (h : tx.run d = some d') :
    (∀ c ∈ d.credentials, c ∈ d'.credentials) ∧ (∀ p ∈ d.passkeys, p ∈ d'.passkeys) ∧
      ∀ account, d'.active account ≤ max 10 (d.active account) := by
  cases tx with
  | sweep now =>
    obtain rfl := Option.some.inj h
    exact ⟨fun _ hc => hc, fun _ hp => hp, fun _ => le_max_right _ _⟩
  | fail transactionId =>
    obtain rfl := Option.some.inj h
    exact ⟨fun _ hc => hc, fun _ hp => hp, fun _ => le_max_right _ _⟩
  | start p =>
    rcases Start.run_some h with ⟨-, rfl⟩ | ⟨row, -, -, rfl⟩
    · exact ⟨fun _ hc => hc, fun _ hp => hp, fun _ => le_max_right _ _⟩
    · exact ⟨fun _ hc => hc, fun _ hp => hp, fun _ => le_max_right _ _⟩
  | register p =>
    obtain ⟨-, -, hactive, -, -, rfl⟩ := Register.run_some h
    refine ⟨fun _ hc => List.mem_append_left _ hc, fun _ hp => List.mem_append_left _ hp, fun account => ?_⟩
    simp only [Db.active, List.countP_append, List.countP_singleton]
    by_cases ha : p.accountId = account
    · subst ha
      unfold Db.active at hactive
      refine le_max_of_le_left ?_
      split
      · omega
      · omega
    · rw [if_neg (by simp [Register.credential, ha])]
      exact le_max_right _ _

theorem Tx.sound {session : String → String} {tx : Tx} (h : tx.run d = some d') (hd : d.Sound session) : d'.Sound session := by
  cases tx with
  | sweep now =>
    obtain rfl := Option.some.inj h
    exact ⟨hd.credentials, hd.passkeys, hd.linked⟩
  | fail transactionId =>
    obtain rfl := Option.some.inj h
    exact ⟨hd.credentials, hd.passkeys, hd.linked⟩
  | start p =>
    rcases Start.run_some h with ⟨-, rfl⟩ | ⟨row, -, -, rfl⟩
    · exact hd
    · exact ⟨hd.credentials, hd.passkeys, hd.linked⟩
  | register p =>
    obtain ⟨-, -, -, hc, hp, rfl⟩ := Register.run_some h
    exact ⟨hd.credentials.snoc hc, hd.passkeys.snoc hp, hd.linked⟩

theorem Drift.sound {session : String → String} (h : Drift session d d') : d'.Sound session :=
  ⟨h.2.2.2.1, h.2.2.2.2.2, h.2.1⟩

/-! ## Counts over the log -/

section
variable {ι : Type}

/-- The entry has inserted the transaction. -/
def inserts (transactionId : String) (e : Entry ι Db Tx) : Bool :=
  match e.tx with
  | .start p => p.transactionId == transactionId && (p.row e.before).isSome
  | _ => false

def Tx.registers (transactionId : String) : Tx → Bool
  | register p => p.transactionId == transactionId
  | _ => false

@[simp] theorem Tx.registers_start (p : Start) (t : String) : (start p).registers t = false := rfl

@[simp] theorem Tx.registers_fail (failed t : String) : (fail failed).registers t = false := rfl

@[simp] theorem Tx.registers_register (p : Register) (t : String) : (register p).registers t = (p.transactionId == t) := rfl

/-- The entry has counted a failed proof. -/
def counts (transactionId : String) (e : Entry ι Db Tx) : Bool :=
  match e.tx with
  | .fail failed => failed == transactionId && e.before.registrations.any fun r => counted transactionId r
  | _ => false

/-- The row was inserted. -/
def Opened (l : List (Entry ι Db Tx)) (row : RegistrationRow) : Prop := ∃ e ∈ l, ∃ p, e.tx = .start p ∧ p.row e.before = some row

theorem Opened.snoc {l : List (Entry ι Db Tx)} {row : RegistrationRow} (h : Opened l row) (e : Entry ι Db Tx) : Opened (l ++ [e]) row := by
  obtain ⟨f, hf, p, htx, hrow⟩ := h
  exact ⟨f, List.mem_append_left _ hf, p, htx, hrow⟩

/-- The row was consumed by this registration. -/
def ConsumedBy (l : List (Entry ι Db Tx)) (r : RegistrationRow) : Prop :=
  ∃ e ∈ l, ∃ p, e.tx = .register p ∧ p.transactionId = r.transactionId ∧ r.credentialId = some p.proof.id ∧
    r.requestHash = some p.requestHash

theorem ConsumedBy.snoc {l : List (Entry ι Db Tx)} {r : RegistrationRow} (h : ConsumedBy l r) (e : Entry ι Db Tx) :
    ConsumedBy (l ++ [e]) r := by
  obtain ⟨f, hf, p, hp⟩ := h
  exact ⟨f, List.mem_append_left _ hf, p, hp⟩

/-- What one row says with the log. -/
structure RegistrationRow.Logged (l : List (Entry ι Db Tx)) (r : RegistrationRow) : Prop where
  few : r.failures ≤ 5
  opened : Opened l r.initial
  consumed : r.consumed = true → ConsumedBy l r
  unconsumed : r.consumed = false → l.countP (·.tx.registers r.transactionId) + 1 ≤ l.countP (inserts r.transactionId)
  counted : l.countP (counts r.transactionId) + 5 ≤ r.failures + 5 * l.countP (inserts r.transactionId)

structure Ledger (d : Db) (l : List (Entry ι Db Tx)) : Prop where
  unique : Unique RegistrationRow.transactionId d.registrations
  rows : ∀ r ∈ d.registrations, r.Logged l
  registered : ∀ t, l.countP (·.tx.registers t) ≤ l.countP (inserts t)
  failed : ∀ t, l.countP (counts t) ≤ 5 * l.countP (inserts t)
  timely : ∀ n e, l[n]? = some e → ∀ p, e.tx = .register p →
    (l.take n).countP (counts p.transactionId) < 5 * (l.take n).countP (inserts p.transactionId)

variable {l : List (Entry ι Db Tx)} {e : Entry ι Db Tx} {r : RegistrationRow}

/-- An entry that neither inserts nor registers nor counts for a row leaves what the row says. -/
theorem RegistrationRow.Logged.snoc (h : r.Logged l) (hi : inserts r.transactionId e = false)
    (hr : e.tx.registers r.transactionId = false) (hc : counts r.transactionId e = false) : r.Logged (l ++ [e]) where
  few := h.few
  opened := h.opened.snoc e
  consumed hcon := (h.consumed hcon).snoc e
  unconsumed hcon := by
    simp only [List.countP_append, List.countP_singleton, hi, hr]
    exact h.unconsumed hcon
  counted := by
    simp only [List.countP_append, List.countP_singleton, hi, hc]
    exact h.counted

theorem timely_snoc (h : ∀ n e, l[n]? = some e → ∀ p, e.tx = .register p →
      (l.take n).countP (counts p.transactionId) < 5 * (l.take n).countP (inserts p.transactionId))
    (he : ∀ p, e.tx = .register p → l.countP (counts p.transactionId) < 5 * l.countP (inserts p.transactionId)) :
    ∀ n f, (l ++ [e])[n]? = some f → ∀ p, f.tx = .register p →
      ((l ++ [e]).take n).countP (counts p.transactionId) < 5 * ((l ++ [e]).take n).countP (inserts p.transactionId) := by
  intro n f hf p htx
  by_cases hn : n < l.length
  · rw [List.getElem?_append_left hn] at hf
    rw [List.take_append_of_le_length hn.le]
    exact h n f hf p htx
  · obtain ⟨hlen, -⟩ := List.getElem?_eq_some_iff.mp hf
    rw [List.length_append, List.length_singleton] at hlen
    obtain rfl : n = l.length := by omega
    rw [List.getElem?_concat_length] at hf
    obtain rfl := Option.some.inj hf
    rw [List.take_left]
    exact he p htx

/-- Entries that say nothing of registrations. -/
theorem Ledger.quiet (h : Ledger d l) (hsub : ∀ r ∈ d'.registrations, r ∈ d.registrations)
    (hunique : Unique RegistrationRow.transactionId d'.registrations) (hi : ∀ t, inserts t e = false)
    (hr : ∀ t, e.tx.registers t = false) (hc : ∀ t, counts t e = false) : Ledger d' (l ++ [e]) where
  unique := hunique
  rows r hm := (h.rows r (hsub r hm)).snoc (hi _) (hr _) (hc _)
  registered t := by
    simp only [List.countP_append, List.countP_singleton, hi, hr]
    exact h.registered t
  failed t := by
    simp only [List.countP_append, List.countP_singleton, hi, hc]
    exact h.failed t
  timely := timely_snoc h.timely fun p htx => by
    have := hr p.transactionId
    rw [htx, Tx.registers, beq_self_eq_true] at this
    cases this

theorem Ledger.drift {session : String → String} (h : Ledger d l) (hd : Drift session d d') : Ledger d' l := by
  obtain ⟨⟨kept, hk⟩, -⟩ := hd
  refine ⟨hk ▸ h.unique.filter kept, fun r hr => h.rows r ?_, h.registered, h.failed, h.timely⟩
  rw [hk] at hr
  exact (List.mem_filter.mp hr).1

/-! ## One transaction -/

theorem Ledger.start (h : Ledger d l) {i : ι} {p : Start} (hrun : p.run d = some d') :
    Ledger d' (l ++ [⟨i, .start p, d⟩]) := by
  rcases Start.run_some hrun with ⟨hnone, rfl⟩ | ⟨row, hrow, hfree, rfl⟩
  · refine h.quiet (fun _ hr => hr) h.unique (fun t => ?_) (fun _ => rfl) fun _ => rfl
    simp [inserts, hnone]
  · obtain ⟨ht, -, -, hfailures, hcon, hinitial, -⟩ := Start.row_some hrow
    have hone : inserts row.transactionId ⟨i, .start p, d⟩ = true := by simp [inserts, ht, hrow]
    have hother : ∀ t, t ≠ row.transactionId → inserts t ⟨i, .start p, d⟩ = false := by
      intro t hne
      simp only [inserts, Bool.and_eq_false_iff]
      exact .inl (beq_eq_false_iff_ne.mpr fun he => hne (he.symm.trans ht.symm))
    constructor
    · exact h.unique.snoc hfree
    · intro r hm
      rcases List.mem_append.mp hm with hm | hm
      · exact (h.rows r hm).snoc (hother _ (hfree r hm)) rfl rfl
      · obtain rfl := List.mem_singleton.mp hm
        have hreg := h.registered r.transactionId
        have hfail := h.failed r.transactionId
        constructor
        · omega
        · exact ⟨_, List.mem_append_right _ (List.mem_singleton_self _), p, rfl, hinitial ▸ hrow⟩
        · intro hc
          rw [hcon] at hc
          cases hc
        · intro _
          simp only [List.countP_append, List.countP_singleton, hone, Tx.registers_start]
          simpa using hreg
        · simp only [List.countP_append, List.countP_singleton, hone, counts]
          simp
          omega
    · intro t
      simp only [List.countP_append, List.countP_singleton, Tx.registers_start]
      exact (h.registered t).trans (Nat.le_add_right _ _)
    · intro t
      simp only [List.countP_append, List.countP_singleton, counts]
      have := h.failed t
      simp
      omega
    · refine timely_snoc h.timely fun q htx => ?_
      cases htx

theorem Ledger.fail (h : Ledger d l) {i : ι} {transactionId : String} (hrun : (Tx.fail transactionId).run d = some d') :
    Ledger d' (l ++ [⟨i, .fail transactionId, d⟩]) := by
  obtain rfl := Option.some.inj hrun
  by_cases hc : ∃ r ∈ d.registrations, counted transactionId r
  · obtain ⟨row, hrow, hcounted⟩ := hc
    have hone : counts transactionId (⟨i, .fail transactionId, d⟩ : Entry ι Db Tx) = true := by
      simp only [counts, beq_self_eq_true, Bool.true_and, List.any_eq_true, decide_eq_true_eq]
      exact ⟨row, hrow, hcounted⟩
    have hother : ∀ t, t ≠ transactionId → counts t (⟨i, .fail transactionId, d⟩ : Entry ι Db Tx) = false := by
      intro t hne
      simp only [counts, Bool.and_eq_false_iff]
      exact .inl (beq_eq_false_iff_ne.mpr fun he => hne he.symm)
    have hl := h.rows row hrow
    have hroom := hl.counted
    rw [hcounted.1] at hroom
    have hfew := hcounted.2.2
    constructor
    · exact h.unique.update fun _ _ _ => rfl
    · intro r hm
      obtain ⟨r₀, hr₀, ⟨hp, rfl⟩ | ⟨hp, rfl⟩⟩ := mem_update.mp hm
      · obtain rfl := h.unique.eq hr₀ hrow (hp.1.trans hcounted.1.symm)
        constructor
        · exact Nat.succ_le_of_lt hfew
        · exact hl.opened.snoc _
        · intro hcon
          exact (hl.consumed hcon).snoc _
        · intro hcon
          simp only [List.countP_append, List.countP_singleton, inserts, Tx.registers_fail]
          exact hl.unconsumed hcon
        · simp only [List.countP_append, List.countP_singleton, hcounted.1, hone, inserts]
          simp
          omega
      · by_cases he : r.transactionId = transactionId
        · obtain rfl := h.unique.eq hr₀ hrow (he.trans hcounted.1.symm)
          exact absurd hcounted hp
        · exact (h.rows r hr₀).snoc rfl rfl (hother _ he)
    · intro t
      simp only [List.countP_append, List.countP_singleton, inserts, Tx.registers_fail]
      exact h.registered t
    · intro t
      by_cases he : t = transactionId
      · subst he
        simp only [List.countP_append, List.countP_singleton, hone, inserts]
        simp
        omega
      · simp only [List.countP_append, List.countP_singleton, hother t he, inserts]
        exact h.failed t
    · refine timely_snoc h.timely fun q htx => ?_
      cases htx
  · have hsame : update (counted transactionId) (fun r => { r with failures := r.failures + 1 }) d.registrations = d.registrations := by
      unfold update
      refine (List.map_congr_left fun r hr => ?_).trans (List.map_id _)
      exact if_neg fun hp => hc ⟨r, hr, hp⟩
    refine h.quiet (fun r hr => hsame ▸ hr) (hsame.symm ▸ h.unique) (fun _ => rfl) (fun _ => rfl) fun t => ?_
    simp only [counts, Bool.and_eq_false_iff]
    by_cases ht : transactionId = t
    · right
      subst ht
      refine List.any_eq_false.mpr fun r hr hp => hc ⟨r, hr, of_decide_eq_true hp⟩
    · exact .inl (beq_eq_false_iff_ne.mpr ht)

theorem Ledger.register (h : Ledger d l) {i : ι} {p : Register} (hrun : p.run d = some d') :
    Ledger d' (l ++ [⟨i, .register p, d⟩]) := by
  obtain ⟨⟨row, hrow, hsel⟩, -, -, -, -, rfl⟩ := Register.run_some hrun
  have hl := h.rows row hrow
  have hopen := hl.unconsumed hsel.2.1
  have hroom := hl.counted
  rw [hsel.1] at hopen hroom
  have hfew := hsel.2.2.1
  constructor
  · exact h.unique.update fun _ _ _ => rfl
  · intro r hm
    obtain ⟨r₀, hr₀, ⟨hp, rfl⟩ | ⟨hp, rfl⟩⟩ := mem_update.mp hm
    · obtain rfl := h.unique.eq hr₀ hrow (hp.1.trans hsel.1.symm)
      constructor
      · exact hl.few
      · exact hl.opened.snoc _
      · intro _
        exact ⟨_, List.mem_append_right _ (List.mem_singleton_self _), p, rfl, hp.1.symm, rfl, rfl⟩
      · intro hcon
        cases hcon
      · simp only [List.countP_append, List.countP_singleton, inserts, counts]
        exact hl.counted
    · by_cases he : r.transactionId = p.transactionId
      · obtain rfl := h.unique.eq hr₀ hrow (he.trans hsel.1.symm)
        exact absurd hsel hp
      · refine (h.rows r hr₀).snoc rfl ?_ rfl
        exact beq_eq_false_iff_ne.mpr fun heq => he heq.symm
  · intro t
    have hno : inserts t (⟨i, .register p, d⟩ : Entry ι Db Tx) = false := rfl
    simp only [List.countP_append, List.countP_singleton, hno, Tx.registers_register]
    by_cases he : p.transactionId = t
    · subst he
      simp
      omega
    · simp only [beq_eq_false_iff_ne.mpr he]
      exact h.registered t
  · intro t
    simp only [List.countP_append, List.countP_singleton, inserts, counts]
    exact h.failed t
  · refine timely_snoc h.timely fun q htx => ?_
    obtain rfl := Tx.register.inj htx
    omega

/-- Every transaction keeps the ledger. -/
theorem Ledger.step (h : Ledger d l) {i : ι} {tx : Tx} (hrun : tx.run d = some d') : Ledger d' (l ++ [⟨i, tx, d⟩]) := by
  cases tx with
  | sweep now =>
    obtain rfl := Option.some.inj hrun
    exact h.quiet (fun _ hr => (List.mem_filter.mp hr).1) (h.unique.filter _) (fun _ => rfl) (fun _ => rfl) fun _ => rfl
  | start p => exact h.start hrun
  | fail transactionId => exact h.fail hrun
  | register p => exact h.register hrun

end

end Mikaki.Webauthn.OwnerPasskeys
