import Mikaki.Dbsc.Sessions

/-!
# What the callers keep of device-bound sessions

Every challenge row and every secret of a session goes back to an entry of the
log, and the log says how often a challenge was made and consumed.
-/

namespace Mikaki.Dbsc

open Concurrent Rows Transactions
open Mikaki.Vault (ContextRow Failure SessionRow)

variable {d d' : Db}

/-! ## Proofs -/

section
variable [Codec]

/-- A refresh proof is signed with the key and names the challenge. -/
theorem verifyRefresh_signed {compact challenge : String} {key : List UInt8} {audience session : String} {now : Nat}
    {proof : RefreshProof} (h : verifyRefresh compact challenge key audience session now = some proof) :
    Signed compact challenge key := by
  simp only [verifyRefresh, parseRefresh, Option.bind_eq_bind, Option.bind_eq_some_iff, require_eq_some, Option.pure_def,
    Option.some.injEq] at h
  obtain ⟨-, ⟨⟨h, c, s⟩, hsplit, hbytes, -, header, -, payload, hpayload, claims, hclaims, -, -, -, hvalid, -, -, signature,
    hsig, rfl⟩, -, hverify, -⟩ := h
  exact ⟨h, c, s, hsplit, ⟨payload, claims, hpayload, hclaims, hvalid.2.1⟩, signature, hsig, hverify⟩

end

/-! ## Secrets -/

/-- The secret that a batch gives to a session. -/
def Tx.writes : Tx → Option (String × String)
  | signIn p => some (p.ssoId, p.secretHash)
  | register p => some (p.ssoId, p.newHash)
  | refresh p => some (p.ssoId, p.newHash)
  | _ => none

theorem rotate_some {p : ContextRow → Prop} [DecidablePred p] {secretHash : String} {t u : List ContextRow}
    (h : rotate p secretHash t = some u) :
    u = update p (fun a => { a with secretHash }) t ∧ (∃ a ∈ t, p a) ∧ ∀ a ∈ t, ¬p a → a.secretHash ≠ secretHash := by
  unfold rotate at h
  split at h
  · rename_i hc
    cases h
    exact ⟨rfl, hc.1, hc.2.1⟩
  · cases h

/-- What the tables say after one session has got a secret. -/
structure Rotated (sso secretHash : String) (t u : List ContextRow) : Prop where
  mem : ∀ x, x ∈ u ↔ x = ⟨sso, secretHash⟩ ∨ (x ∈ t ∧ x.ssoId ≠ sso)
  ids : Unique ContextRow.ssoId u
  secrets : Unique ContextRow.secretHash u

theorem Rotated.ofRotate {p : ContextRow → Prop} [DecidablePred p] {sso secretHash : String} {t u : List ContextRow}
    (h : rotate p secretHash t = some u) (hp : ∀ a, p a → a.ssoId = sso) (hids : Unique ContextRow.ssoId t)
    (hsecrets : Unique ContextRow.secretHash t) : Rotated sso secretHash t u := by
  obtain ⟨rfl, ⟨a, ha, hpa⟩, hother⟩ := rotate_some h
  have hpiff : ∀ x ∈ t, p x ↔ x.ssoId = sso := by
    intro x hx
    refine ⟨hp x, fun he => ?_⟩
    rw [hids.eq hx ha (he.trans (hp a hpa).symm)]
    exact hpa
  refine ⟨fun x => ?_, hids.update fun _ _ _ => rfl, ?_⟩
  · rw [mem_update]
    constructor
    · rintro ⟨y, hy, ⟨hpy, rfl⟩ | ⟨hpy, rfl⟩⟩
      · exact .inl (by rw [hp y hpy])
      · exact .inr ⟨hy, fun he => hpy ((hpiff x hy).mpr he)⟩
    · rintro (rfl | ⟨hx, hne⟩)
      · exact ⟨a, ha, .inl ⟨hpa, by rw [hp a hpa]⟩⟩
      · exact ⟨x, hx, .inr ⟨fun hpx => hne (hp x hpx), rfl⟩⟩
  · refine List.pairwise_map.mpr ((hsecrets.and hids).imp_of_mem fun {x y} hx hy hxy => ?_)
    by_cases hpx : p x
    · have hpy : ¬p y := fun hpy => hxy.2 ((hp x hpx).trans (hp y hpy).symm)
      rw [if_pos hpx, if_neg hpy]
      exact (hother y hy hpy).symm
    · rw [if_neg hpx]
      by_cases hpy : p y
      · rw [if_pos hpy]
        exact hother x hx hpx
      · rw [if_neg hpy]
        exact hxy.1

theorem Rotated.snoc {sso secretHash : String} {t : List ContextRow} (hsso : ∀ x ∈ t, x.ssoId ≠ sso)
    (hsecret : ∀ x ∈ t, x.secretHash ≠ secretHash) (hids : Unique ContextRow.ssoId t)
    (hsecrets : Unique ContextRow.secretHash t) : Rotated sso secretHash t (t ++ [⟨sso, secretHash⟩]) := by
  refine ⟨fun x => ?_, hids.snoc hsso, hsecrets.snoc hsecret⟩
  rw [mem_snoc]
  constructor
  · rintro (hx | rfl)
    · exact .inr ⟨hx, hsso x hx⟩
    · exact .inl rfl
  · rintro (rfl | ⟨hx, -⟩)
    · exact .inr rfl
    · exact .inl hx

/-! ## What each batch does -/

namespace SignIn
variable {p : SignIn}

/-- What a sign-in does to sessions and secrets. -/
structure Opens (p : SignIn) (d d' : Db) : Prop where
  fresh : ∀ s ∈ d.sessions, s.ssoId ≠ p.ssoId
  ids : ∀ x ∈ d.contexts, x.ssoId ≠ p.ssoId
  secrets : ∀ x ∈ d.contexts, x.secretHash ≠ p.secretHash
  sessions : d'.sessions = d.sessions ++ [p.session]
  contexts : d'.contexts = d.contexts ++ [p.context]
  bound : d'.bound = d.bound
  challenges : d'.challenges = d.challenges

theorem run_opens (h : p.run d = some d') : p.Opens d d' := by
  simp only [run, Option.bind_eq_bind, Option.bind_eq_some_iff, require_eq_some, Option.pure_def, Option.some.injEq] at h
  obtain ⟨-, -, -, -, -, -, -, -, sessions, hs, -, hsecrets, contexts, hc, rfl⟩ := h
  obtain ⟨⟨-, hfresh⟩, rfl⟩ := insert_eq_some.mp hs
  obtain ⟨⟨-, hids⟩, rfl⟩ := insert_eq_some.mp hc
  exact ⟨hfresh, hids, hsecrets, rfl, rfl, rfl, rfl⟩

end SignIn

namespace Register
variable {p : Register}

/-- What a registration does: it consumes the challenge, replaces the secret that was presented and binds the session. -/
structure Binds (p : Register) (d d' : Db) : Prop where
  challenge : ∃ c ∈ d.challenges, c.liveFor p.challenge p.ssoId p.now
  parent : d.parent p.ssoId p.now
  presented : ⟨p.ssoId, p.currentHash⟩ ∈ d.contexts
  rotated : Unique ContextRow.ssoId d.contexts → Unique ContextRow.secretHash d.contexts →
    Rotated p.ssoId p.newHash d.contexts d'.contexts
  fresh : ∀ r ∈ d.bound, r.sessionId ≠ p.sessionId
  bound : d'.bound = d.bound ++ [p.bound]
  challenges : d'.challenges = d.challenges.filter fun c => ¬c.liveFor p.challenge p.ssoId p.now
  sessions : d'.sessions = d.sessions

theorem run_binds (h : p.run d = some d') : p.Binds d d' := by
  simp only [run, Option.bind_eq_bind, Option.bind_eq_some_iff, require_eq_some, Option.pure_def, Option.some.injEq] at h
  obtain ⟨-, hc, -, hparent, contexts, hrot, bound, hb, rfl⟩ := h
  obtain ⟨⟨-, hfresh⟩, rfl⟩ := insert_eq_some.mp hb
  refine ⟨hc, hparent, ?_, fun hi hs => .ofRotate hrot (fun a ha => ha.1) hi hs, hfresh, rfl, rfl, rfl⟩
  obtain ⟨-, ⟨⟨sso, secretHash⟩, ha, hsso, hsecret⟩, -⟩ := rotate_some hrot
  rw [← hsso, ← hsecret]
  exact ha

end Register

namespace Refresh
variable {p : Refresh}

/-- What a refresh does: it consumes the challenge, replaces the secret and renews the binding. -/
structure Renews (p : Refresh) (d d' : Db) : Prop where
  challenge : ∃ c ∈ d.challenges, c.liveFor p.challenge p.sessionId p.now
  parent : d.parent p.ssoId p.now
  known : ∃ x ∈ d.contexts, x.ssoId = p.ssoId
  rotated : Unique ContextRow.ssoId d.contexts → Unique ContextRow.secretHash d.contexts →
    Rotated p.ssoId p.newHash d.contexts d'.contexts
  bound : d'.bound = update (fun r => r.sessionId = p.sessionId) p.refreshed d.bound
  challenges : d'.challenges = d.challenges.filter fun c => ¬c.liveFor p.challenge p.sessionId p.now
  sessions : d'.sessions = d.sessions

theorem run_renews (h : p.run d = some d') : p.Renews d d' := by
  simp only [run, Option.bind_eq_bind, Option.bind_eq_some_iff, require_eq_some, Option.pure_def, Option.some.injEq] at h
  obtain ⟨-, hc, -, hparent, contexts, hrot, -, -, rfl⟩ := h
  exact ⟨hc, hparent, (rotate_some hrot).2.1, fun hi hs => .ofRotate hrot (fun a ha => ha) hi hs, rfl, rfl, rfl⟩

end Refresh

/-- A new challenge replaces those that have run out. -/
theorem Tx.challenge_some {now : Nat} {row : ChallengeRow} (h : (Tx.challenge now row).run d = some d') :
    d' = { d with challenges := d.challenges.filter (fun c => c.expiresAt > now) ++ [row] } ∧
      ∀ c ∈ d.challenges.filter (fun c => c.expiresAt > now), c.challenge ≠ row.challenge := by
  simp only [run, Option.bind_eq_bind, Option.bind_eq_some_iff, Option.pure_def, Option.some.injEq] at h
  obtain ⟨challenges, hc, rfl⟩ := h
  obtain ⟨⟨-, hfresh⟩, rfl⟩ := insert_eq_some.mp hc
  exact ⟨rfl, hfresh⟩

/-- A batch that writes a secret replaces the one of its session. -/
theorem Tx.contexts_step {tx : Tx} (hr : tx.run d = some d') (hids : Unique ContextRow.ssoId d.contexts)
    (hsecrets : Unique ContextRow.secretHash d.contexts) :
    (tx.writes = none ∧ d'.contexts = d.contexts) ∨
      ∃ sso secretHash, tx.writes = some (sso, secretHash) ∧ Rotated sso secretHash d.contexts d'.contexts := by
  cases tx with
  | signIn p =>
    have ho := SignIn.run_opens hr
    refine .inr ⟨p.ssoId, p.secretHash, rfl, ?_⟩
    rw [ho.contexts]
    exact .snoc ho.ids ho.secrets hids hsecrets
  | fail ownerLogin txId browserHash =>
    cases hr
    exact .inl ⟨rfl, rfl⟩
  | challenge now row =>
    rw [(Tx.challenge_some hr).1]
    exact .inl ⟨rfl, rfl⟩
  | register p => exact .inr ⟨p.ssoId, p.newHash, rfl, (Register.run_binds hr).rotated hids hsecrets⟩
  | refresh p => exact .inr ⟨p.ssoId, p.newHash, rfl, (Refresh.run_renews hr).rotated hids hsecrets⟩

/-- Sessions are opened by sign-ins only. -/
theorem Tx.sessions_step {tx : Tx} (hr : tx.run d = some d') :
    d'.sessions = d.sessions ∨ ∃ p, tx = .signIn p ∧ p.Opens d d' := by
  cases tx with
  | signIn p => exact .inr ⟨p, rfl, SignIn.run_opens hr⟩
  | fail ownerLogin txId browserHash =>
    cases hr
    exact .inl rfl
  | challenge now row =>
    rw [(Tx.challenge_some hr).1]
    exact .inl rfl
  | register p => exact .inl (Register.run_binds hr).sessions
  | refresh p => exact .inl (Refresh.run_renews hr).sessions

theorem Tx.challenge_made {tx : Tx} (hr : tx.run d = some d') {c : ChallengeRow} (hm : c ∈ d'.challenges) :
    c ∈ d.challenges ∨ ∃ now, tx = .challenge now c := by
  cases tx with
  | signIn p => exact .inl ((SignIn.run_opens hr).challenges ▸ hm)
  | fail ownerLogin txId browserHash =>
    cases hr
    exact .inl hm
  | challenge now row =>
    rw [(Tx.challenge_some hr).1] at hm
    rcases mem_snoc.mp hm with hm | rfl
    · exact .inl (List.mem_of_mem_filter hm)
    · exact .inr ⟨now, rfl⟩
  | register p =>
    rw [(Register.run_binds hr).challenges] at hm
    exact .inl (List.mem_of_mem_filter hm)
  | refresh p =>
    rw [(Refresh.run_renews hr).challenges] at hm
    exact .inl (List.mem_of_mem_filter hm)

/-- The challenge that a batch consumes, and for which session. -/
def Tx.consumes : Tx → Option (String × String)
  | register p => some (p.challenge, p.ssoId)
  | refresh p => some (p.challenge, p.sessionId)
  | _ => none

/-- The challenge that a batch consumes is there, and for its session. -/
theorem Tx.consumes_live {tx : Tx} (hr : tx.run d = some d') {challenge session : String}
    (h : tx.consumes = some (challenge, session)) : ∃ c ∈ d.challenges, c.challenge = challenge ∧ c.sessionId = some session := by
  cases tx with
  | signIn | fail | challenge => cases h
  | register p =>
    cases h
    obtain ⟨c, hc, hl⟩ := (Register.run_binds hr).challenge
    exact ⟨c, hc, hl.1, hl.2.1⟩
  | refresh p =>
    cases h
    obtain ⟨c, hc, hl⟩ := (Refresh.run_renews hr).challenge
    exact ⟨c, hc, hl.1, hl.2.1⟩

/-- A batch that writes the secret of a session finds the session's row, unless it opens it. -/
theorem Tx.writes_known {tx : Tx} (hr : tx.run d = some d') {sso secretHash : String} (h : tx.writes = some (sso, secretHash)) :
    (∃ p, tx = .signIn p ∧ p.ssoId = sso) ∨ ∃ x ∈ d.contexts, x.ssoId = sso := by
  cases tx with
  | fail | challenge => cases h
  | signIn p =>
    cases h
    exact .inl ⟨p, rfl, rfl⟩
  | register p =>
    cases h
    exact .inr ⟨_, (Register.run_binds hr).presented, rfl⟩
  | refresh p =>
    cases h
    exact .inr (Refresh.run_renews hr).known

/-! ## Bindings -/

/-- The session is bound to the key. -/
def Bound (d : Db) (sessionId ssoId : String) (key : List UInt8) : Prop :=
  ∃ r ∈ d.bound, r.sessionId = sessionId ∧ r.ssoId = ssoId ∧ r.publicKeySec1 = key

/-- A binding stays, and only a refresh of it changes when its cookie expires. -/
theorem Tx.bound_stays {tx : Tx} (hr : tx.run d = some d') {r : BoundRow} (hm : r ∈ d.bound) :
    ∃ r' ∈ d'.bound, r'.sessionId = r.sessionId ∧ r'.ssoId = r.ssoId ∧ r'.publicKeySec1 = r.publicKeySec1 ∧
      (r' = r ∨ ∃ p, tx = .refresh p ∧ p.sessionId = r.sessionId) := by
  cases tx with
  | signIn p => exact ⟨r, (SignIn.run_opens hr).bound ▸ hm, rfl, rfl, rfl, .inl rfl⟩
  | fail ownerLogin txId browserHash =>
    cases hr
    exact ⟨r, hm, rfl, rfl, rfl, .inl rfl⟩
  | challenge now row =>
    rw [(Tx.challenge_some hr).1]
    exact ⟨r, hm, rfl, rfl, rfl, .inl rfl⟩
  | register p =>
    rw [(Register.run_binds hr).bound]
    exact ⟨r, List.mem_append_left _ hm, rfl, rfl, rfl, .inl rfl⟩
  | refresh p =>
    rw [(Refresh.run_renews hr).bound]
    by_cases hs : r.sessionId = p.sessionId
    · exact ⟨p.refreshed r, mem_update.mpr ⟨r, hm, .inl ⟨hs, rfl⟩⟩, rfl, rfl, rfl, .inr ⟨p, rfl, hs.symm⟩⟩
    · exact ⟨r, mem_update.mpr ⟨r, hm, .inr ⟨hs, rfl⟩⟩, rfl, rfl, rfl, .inl rfl⟩

theorem Bound.step {tx : Tx} (hr : tx.run d = some d') {sessionId ssoId : String} {key : List UInt8}
    (h : Bound d sessionId ssoId key) : Bound d' sessionId ssoId key := by
  obtain ⟨r, hm, rfl, rfl, rfl⟩ := h
  obtain ⟨r', hm', hid, hsso, hkey, -⟩ := Tx.bound_stays hr hm
  exact ⟨r', hm', hid, hsso, hkey⟩

/-- Bindings are made by registrations only. -/
theorem Tx.bound_made {tx : Tx} (hr : tx.run d = some d') {r : BoundRow} (hm : r ∈ d'.bound) :
    (∃ o ∈ d.bound, o.sessionId = r.sessionId ∧ o.ssoId = r.ssoId) ∨ ∃ p, tx = .register p ∧ r = p.bound := by
  cases tx with
  | signIn p => exact .inl ⟨r, (SignIn.run_opens hr).bound ▸ hm, rfl, rfl⟩
  | fail ownerLogin txId browserHash =>
    cases hr
    exact .inl ⟨r, hm, rfl, rfl⟩
  | challenge now row =>
    rw [(Tx.challenge_some hr).1] at hm
    exact .inl ⟨r, hm, rfl, rfl⟩
  | register p =>
    rw [(Register.run_binds hr).bound] at hm
    rcases mem_snoc.mp hm with hm | rfl
    · exact .inl ⟨r, hm, rfl, rfl⟩
    · exact .inr ⟨p, rfl, rfl⟩
  | refresh p =>
    rw [(Refresh.run_renews hr).bound] at hm
    obtain ⟨o, ho, ⟨-, rfl⟩ | ⟨-, rfl⟩⟩ := mem_update.mp hm
    · exact .inl ⟨o, ho, rfl, rfl⟩
    · exact .inl ⟨r, ho, rfl, rfl⟩

theorem Tx.bound_ids {tx : Tx} (hr : tx.run d = some d') (h : Unique BoundRow.sessionId d.bound) :
    Unique BoundRow.sessionId d'.bound := by
  cases tx with
  | signIn p =>
    rw [(SignIn.run_opens hr).bound]
    exact h
  | fail ownerLogin txId browserHash =>
    cases hr
    exact h
  | challenge now row =>
    rw [(Tx.challenge_some hr).1]
    exact h
  | register p =>
    rw [(Register.run_binds hr).bound]
    exact h.snoc (Register.run_binds hr).fresh
  | refresh p =>
    rw [(Refresh.run_renews hr).bound]
    exact h.update fun _ _ _ => rfl

/-! ## Counting -/

/-- The batch makes the challenge. -/
def Tx.makes (challenge : String) : Tx → Bool
  | .challenge _ row => row.challenge == challenge
  | _ => false

/-- The batch makes a challenge for the session. -/
def Tx.makesFor (session : String) : Tx → Bool
  | .challenge _ row => row.sessionId == some session
  | _ => false

def Tx.consumed (challenge : String) (tx : Tx) : Bool := tx.consumes.map Prod.fst == some challenge

/-- The batch binds the session. -/
def Tx.registers (sso : String) : Tx → Bool
  | register p => p.ssoId == sso
  | _ => false

/-- A challenge that is consumed is one row less, one that is made is one row more. -/
theorem Tx.count_challenge {tx : Tx} (hr : tx.run d = some d') (challenge : String) :
    d'.challenges.countP (·.challenge == challenge) + (tx.consumed challenge).toNat ≤
      d.challenges.countP (·.challenge == challenge) + (tx.makes challenge).toNat := by
  have hconsume : ∀ {x session : String} {now : Nat}, (∃ c ∈ d.challenges, c.liveFor x session now) →
      d'.challenges = d.challenges.filter (fun c => ¬c.liveFor x session now) →
      d'.challenges.countP (·.challenge == challenge) + (some x == some challenge).toNat ≤
        d.challenges.countP (·.challenge == challenge) := by
    intro x session now hlive hd
    simp only [decide_not] at hd
    rw [hd]
    by_cases hx : x = challenge
    · subst hx
      obtain ⟨c, hc, hl⟩ := hlive
      simpa using countP_filter_lt (p := fun c : ChallengeRow => c.challenge == x)
        (q := fun c => decide (c.liveFor x session now)) ⟨c, hc, decide_eq_true hl, beq_iff_eq.mpr hl.1⟩
    · rw [show (some x == some challenge) = false from beq_eq_false_iff_ne.mpr fun h => hx (Option.some.inj h)]
      exact countP_filter_le _ _ _
  cases tx with
  | signIn p =>
    rw [(SignIn.run_opens hr).challenges]
    exact Nat.le_refl _
  | fail ownerLogin txId browserHash =>
    cases hr
    exact Nat.le_refl _
  | challenge now row =>
    rw [(Tx.challenge_some hr).1]
    have hle := countP_filter_le (fun c : ChallengeRow => c.challenge == challenge) (fun c => c.expiresAt > now) d.challenges
    simp only [Tx.consumed, Tx.consumes, Tx.makes, List.countP_append, List.countP_singleton, Option.map_none]
    cases row.challenge == challenge <;> simp <;> omega
  | register p => exact hconsume (Register.run_binds hr).challenge (Register.run_binds hr).challenges
  | refresh p => exact hconsume (Refresh.run_renews hr).challenge (Refresh.run_renews hr).challenges

/-- A registration takes a challenge of its session. -/
theorem Tx.count_session {tx : Tx} (hr : tx.run d = some d') (sso : String) :
    d'.challenges.countP (·.sessionId == some sso) + (tx.registers sso).toNat ≤
      d.challenges.countP (·.sessionId == some sso) + (tx.makesFor sso).toNat := by
  cases tx with
  | signIn p =>
    rw [(SignIn.run_opens hr).challenges]
    exact Nat.le_refl _
  | fail ownerLogin txId browserHash =>
    cases hr
    exact Nat.le_refl _
  | challenge now row =>
    rw [(Tx.challenge_some hr).1]
    have hle := countP_filter_le (fun c : ChallengeRow => c.sessionId == some sso) (fun c => c.expiresAt > now) d.challenges
    simp only [Tx.registers, Tx.makesFor, List.countP_append, List.countP_singleton]
    cases row.sessionId == some sso <;> simp <;> omega
  | register p =>
    have hb := Register.run_binds hr
    rw [hb.challenges]
    simp only [decide_not, Tx.registers, Tx.makesFor]
    by_cases hsso : p.ssoId = sso
    · subst hsso
      obtain ⟨c, hc, hl⟩ := hb.challenge
      simpa using countP_filter_lt (p := fun c : ChallengeRow => c.sessionId == some p.ssoId)
        (q := fun c => decide (c.liveFor p.challenge p.ssoId p.now)) ⟨c, hc, decide_eq_true hl, beq_iff_eq.mpr hl.2.1⟩
    · rw [beq_eq_false_iff_ne.mpr hsso]
      exact countP_filter_le _ _ _
  | refresh p =>
    rw [(Refresh.run_renews hr).challenges]
    exact countP_filter_le _ _ _

/-- Only a registration binds a session. -/
theorem Tx.count_bound {tx : Tx} (hr : tx.run d = some d') (sso : String) :
    d'.bound.countP (·.ssoId == sso) = d.bound.countP (·.ssoId == sso) + (tx.registers sso).toNat := by
  cases tx with
  | signIn p =>
    rw [(SignIn.run_opens hr).bound]
    rfl
  | fail ownerLogin txId browserHash =>
    cases hr
    rfl
  | challenge now row =>
    rw [(Tx.challenge_some hr).1]
    rfl
  | register p =>
    rw [(Register.run_binds hr).bound, List.countP_append, List.countP_singleton]
    change _ + (if (p.ssoId == sso) = true then 1 else 0) = _ + (p.ssoId == sso).toNat
    cases p.ssoId == sso <;> rfl
  | refresh p =>
    rw [(Refresh.run_renews hr).bound, update, List.countP_map]
    refine List.countP_congr fun r _ => ?_
    by_cases hs : r.sessionId = p.sessionId
    · simp only [Function.comp_apply, if_pos hs]
      rfl
    · simp only [Function.comp_apply, if_neg hs]

/-! ## The log -/

/-- The secrets that were written, in order. -/
def written {ι : Type} (l : List (Transactions.Entry ι Db Tx)) : List (String × String) := l.filterMap (·.tx.writes)

/-- The last secret of a session. -/
def latest (sso : String) (ws : List (String × String)) : Option String := (ws.reverse.find? (·.1 == sso)).map Prod.snd

theorem latest_append (sso : String) (ws ws' : List (String × String)) :
    latest sso (ws ++ ws') = (latest sso ws').or (latest sso ws) := by
  unfold latest
  rw [List.reverse_append, List.find?_append, Option.map_or]

theorem latest_mem {sso secretHash : String} {ws : List (String × String)} (h : latest sso ws = some secretHash) :
    (sso, secretHash) ∈ ws := by
  unfold latest at h
  obtain ⟨⟨x, y⟩, hf, rfl⟩ := Option.map_eq_some_iff.mp h
  have hp := List.find?_some hf
  obtain rfl : x = sso := by simpa using hp
  exact List.mem_reverse.mp (List.mem_of_find?_eq_some hf)

/-- A secret that is no longer the last of its session never is again, where secrets are written once. -/
theorem latest_once {secretHash : String} {ws ws' : List (String × String)} (hn : ((ws ++ ws').map Prod.snd).Nodup)
    (hold : secretHash ∈ ws.map Prod.snd) (hgone : ∀ sso, latest sso ws ≠ some secretHash) (sso : String) :
    latest sso (ws ++ ws') ≠ some secretHash := by
  intro h
  rw [latest_append] at h
  rcases Option.or_eq_some_iff.mp h with h | ⟨-, h⟩
  · rw [List.map_append] at hn
    exact (List.nodup_append.mp hn).2.2 _ hold _ (List.mem_map.mpr ⟨_, latest_mem h, rfl⟩) rfl
  · exact hgone sso h

/-- The last secret after one more batch. -/
theorem latest_snoc {ι : Type} {l : List (Transactions.Entry ι Db Tx)} (e : Transactions.Entry ι Db Tx) (sso : String) :
    latest sso (written (l ++ [e])) =
      if (e.tx.writes.map Prod.fst) = some sso then e.tx.writes.map Prod.snd else latest sso (written l) := by
  unfold written
  rw [List.filterMap_append, latest_append]
  cases hw : e.tx.writes with
  | none => simp [hw, latest]
  | some w => by_cases hs : w.1 = sso <;> simp [hw, latest, hs]

section
variable {ι : Type} [Codec] (calls : ι → Call) (draw : ι → Nat → String)

/-- What a caller may send. -/
def Sends (i : ι) (d : Db) : Tx → Prop
  | .signIn p => (∃ request input, calls i = .signIn request input) ∧ p.ssoId = draw i 0 ∧ p.secretHash = Codec.hash (draw i 1)
  | .fail .. => True
  | .challenge _ row => (∃ n, row.challenge = draw i n) ∧
      (((∃ request input, calls i = .signIn request input) ∧ row.sessionId = some (draw i 0)) ∨ row.sessionId = none ∨
        ∃ sessionId ssoId key, row.sessionId = some sessionId ∧ Bound d sessionId ssoId key)
  | .register p => ∃ request cookie, calls i = .register request ∧ request.cookie = some cookie ∧
      p.currentHash = Codec.hash cookie ∧ p.newHash = Codec.hash (draw i 1) ∧ p.sessionId = draw i 0
  | .refresh p => ∃ request jwt key, calls i = .refresh request ∧ request.response.bind structuredString = some jwt ∧
      Signed jwt p.challenge key ∧ Bound d p.sessionId p.ssoId key ∧ p.newHash = Codec.hash (draw i 0)

/-- What the rows and the log say about each other. -/
structure History (d : Db) (l : List (Transactions.Entry ι Db Tx)) : Prop where
  ids : Unique ContextRow.ssoId d.contexts
  secrets : Unique ContextRow.secretHash d.contexts
  /-- A session has the secret that was written last. -/
  current : ∀ x, x ∈ d.contexts ↔ latest x.ssoId (written l) = some x.secretHash
  /-- A session has a secret and was opened by a sign-in. -/
  opened : ∀ s ∈ d.sessions, (∃ x ∈ d.contexts, x.ssoId = s.ssoId) ∧
    ∃ i request input, calls i = .signIn request input ∧ s.ssoId = draw i 0
  context : ∀ x ∈ d.contexts, ∃ s ∈ d.sessions, s.ssoId = x.ssoId
  bound : ∀ r ∈ d.bound, (∃ x ∈ d.contexts, x.ssoId = r.ssoId) ∧ ∃ i request, calls i = .register request ∧ r.sessionId = draw i 0
  boundIds : Unique BoundRow.sessionId d.bound
  sent : ∀ e ∈ l, Sends calls draw e.caller e.before e.tx
  /-- Bindings stay. -/
  keys : ∀ e ∈ l, ∀ sessionId ssoId key, Bound e.before sessionId ssoId key → Bound d sessionId ssoId key
  /-- A challenge that was made for a session which is bound. -/
  renewed : ∀ e ∈ l, ∀ now row sessionId, e.tx = .challenge now row → row.sessionId = some sessionId →
    sessionId = draw e.caller 0 ∧ (∃ request input, calls e.caller = .signIn request input) ∨
      ∃ i request, calls i = .register request ∧ sessionId = draw i 0
  made : ∀ c ∈ d.challenges, ∃ e ∈ l, ∃ now, e.tx = .challenge now c
  consumed : ∀ e ∈ l, ∀ challenge session, e.tx.consumes = some (challenge, session) →
    ∃ f ∈ l, ∃ now expiresAt, f.tx = .challenge now ⟨challenge, some session, expiresAt⟩
  once : ∀ challenge, l.countP (fun e => e.tx.consumed challenge) + d.challenges.countP (·.challenge == challenge) ≤
    l.countP (fun e => e.tx.makes challenge)
  registered : ∀ sso, l.countP (fun e => e.tx.registers sso) + d.challenges.countP (·.sessionId == some sso) ≤
    l.countP (fun e => e.tx.makesFor sso)
  bindings : ∀ sso, d.bound.countP (·.ssoId == sso) = l.countP (fun e => e.tx.registers sso)

variable {calls draw} {l : List (Transactions.Entry ι Db Tx)}

/-- A row is there under the session's last secret. -/
theorem History.contexts (h : History calls draw d l) {i : ι} {tx : Tx} (hr : tx.run d = some d') :
    Unique ContextRow.ssoId d'.contexts ∧ Unique ContextRow.secretHash d'.contexts ∧
      (∀ x, x ∈ d'.contexts ↔ latest x.ssoId (written (l ++ [⟨i, tx, d⟩])) = some x.secretHash) ∧
      ∀ x ∈ d.contexts, ∃ y ∈ d'.contexts, y.ssoId = x.ssoId := by
  rcases Tx.contexts_step hr h.ids h.secrets with ⟨hw, hd⟩ | ⟨sso, secretHash, hw, hrot⟩
  · rw [hd]
    refine ⟨h.ids, h.secrets, fun x => ?_, fun x hx => ⟨x, hx, rfl⟩⟩
    rw [latest_snoc, hw, if_neg (by simp)]
    exact h.current x
  · refine ⟨hrot.ids, hrot.secrets, fun x => ?_, fun x hx => ?_⟩
    · rw [latest_snoc, hrot.mem, hw]
      simp only [Option.map_some, Option.some.injEq]
      by_cases hx : sso = x.ssoId
      · rw [if_pos hx, Option.some.injEq]
        constructor
        · rintro (rfl | ⟨-, hne⟩)
          · rfl
          · exact absurd hx.symm hne
        · intro hh
          exact .inl (by rw [hx, hh])
      · rw [if_neg hx, ← h.current x]
        constructor
        · rintro (rfl | ⟨hm, -⟩)
          · exact absurd rfl hx
          · exact hm
        · intro hm
          exact .inr ⟨hm, Ne.symm hx⟩
    · by_cases hs : x.ssoId = sso
      · exact ⟨⟨sso, secretHash⟩, (hrot.mem _).mpr (.inl rfl), hs.symm⟩
      · exact ⟨x, (hrot.mem _).mpr (.inr ⟨hx, hs⟩), rfl⟩

theorem History.step (h : History calls draw d l) {i : ι} {tx : Tx} (hs : Sends calls draw i d tx) (hr : tx.run d = some d') :
    History calls draw d' (l ++ [⟨i, tx, d⟩]) := by
  obtain ⟨hids, hsecrets, hcurrent, hkeep⟩ := h.contexts (i := i) hr
  have hgrow : ∀ {P : Transactions.Entry ι Db Tx → Prop}, (∃ e ∈ l, P e) → ∃ e ∈ l ++ [⟨i, tx, d⟩], P e :=
    fun ⟨e, he, hp⟩ => ⟨e, List.mem_append_left _ he, hp⟩
  have hlive : ∀ c ∈ d.challenges, ∃ f ∈ l, ∃ now, f.tx = .challenge now c := h.made
  refine
    { ids := hids, secrets := hsecrets, current := hcurrent, boundIds := Tx.bound_ids hr h.boundIds
      sent := forall_mem_snoc h.sent hs, keys := ?_, opened := ?_, context := ?_, bound := ?_, renewed := ?_, made := ?_, consumed := ?_
      once := ?_, registered := ?_, bindings := ?_ }
  · intro s hm
    have hold : ∀ s ∈ d.sessions, (∃ x ∈ d'.contexts, x.ssoId = s.ssoId) ∧
        ∃ i request input, calls i = .signIn request input ∧ s.ssoId = draw i 0 := by
      intro s hm
      obtain ⟨⟨x, hx, he⟩, hopen⟩ := h.opened s hm
      obtain ⟨y, hy, hxy⟩ := hkeep x hx
      exact ⟨⟨y, hy, hxy.trans he⟩, hopen⟩
    rcases Tx.sessions_step hr with hd | ⟨p, rfl, ho⟩
    · exact hold s (hd ▸ hm)
    · rw [ho.sessions] at hm
      rcases mem_snoc.mp hm with hm | rfl
      · exact hold s hm
      · obtain ⟨⟨request, input, hcall⟩, hid, -⟩ := hs
        refine ⟨⟨p.context, ?_, rfl⟩, i, request, input, hcall, hid⟩
        rw [ho.contexts]
        exact List.mem_append_right _ List.mem_cons_self
  · intro x hm
    have hold : ∀ x ∈ d.contexts, ∃ s ∈ d'.sessions, s.ssoId = x.ssoId := by
      intro x hm
      obtain ⟨s, hmem, he⟩ := h.context x hm
      rcases Tx.sessions_step hr with hd | ⟨p, rfl, ho⟩
      · exact ⟨s, hd.symm ▸ hmem, he⟩
      · exact ⟨s, ho.sessions.symm ▸ List.mem_append_left _ hmem, he⟩
    rcases Tx.contexts_step hr h.ids h.secrets with ⟨-, hd⟩ | ⟨sso, secretHash, hw, hrot⟩
    · exact hold x (hd ▸ hm)
    · rcases (hrot.mem x).mp hm with rfl | ⟨hm, -⟩
      · rcases Tx.writes_known hr hw with ⟨p, rfl, rfl⟩ | ⟨y, hy, rfl⟩
        · exact ⟨p.session, (SignIn.run_opens hr).sessions.symm ▸ List.mem_append_right _ List.mem_cons_self, rfl⟩
        · exact hold y hy
      · exact hold x hm
  · intro r hm
    have hsso : ∀ sso, (∃ x ∈ d.contexts, x.ssoId = sso) → ∃ x ∈ d'.contexts, x.ssoId = sso := by
      rintro _ ⟨x, hx, rfl⟩
      exact hkeep x hx
    rcases Tx.bound_made hr hm with ⟨o, ho, hid, hso⟩ | ⟨p, rfl, rfl⟩
    · rw [← hid, ← hso]
      exact ⟨hsso _ (h.bound o ho).1, (h.bound o ho).2⟩
    · obtain ⟨request, cookie, hcall, -, -, -, hid⟩ := hs
      exact ⟨hsso _ ⟨_, (Register.run_binds hr).presented, rfl⟩, i, request, hcall, hid⟩
  · refine forall_mem_snoc (fun e he => ?_) fun sessionId ssoId key hb => hb.step hr
    exact fun sessionId ssoId key hb => (h.keys e he _ _ _ hb).step hr
  · refine forall_mem_snoc h.renewed ?_
    rintro now row sessionId rfl hrow
    obtain ⟨-, ⟨hcall, hsid⟩ | hnone | ⟨sid, ssoId, key, hsid, r, hm, hrid, -, -⟩⟩ := hs
    · rw [hrow] at hsid
      exact .inl ⟨Option.some.inj hsid, hcall⟩
    · rw [hrow] at hnone
      cases hnone
    · rw [hrow] at hsid
      obtain ⟨j, request, hcall, hj⟩ := (h.bound r hm).2
      exact .inr ⟨j, request, hcall, (Option.some.inj hsid).trans (hrid.symm.trans hj)⟩
  · intro c hm
    rcases Tx.challenge_made hr hm with hm | ⟨now, rfl⟩
    · exact hgrow (hlive c hm)
    · exact ⟨_, List.mem_append_right _ List.mem_cons_self, now, rfl⟩
  · refine forall_mem_snoc (fun e he challenge session hc => hgrow (h.consumed e he challenge session hc)) ?_
    intro challenge session hc
    obtain ⟨⟨challenge, session, expiresAt⟩, hm, rfl, rfl⟩ := Tx.consumes_live hr hc
    obtain ⟨f, hf, now, htx⟩ := hlive _ hm
    exact ⟨f, List.mem_append_left _ hf, now, expiresAt, htx⟩
  · intro challenge
    have hold := h.once challenge
    have hstep := Tx.count_challenge hr challenge
    rw [countP_snoc, countP_snoc]
    dsimp only
    omega
  · intro sso
    have hold := h.registered sso
    have hstep := Tx.count_session hr sso
    rw [countP_snoc, countP_snoc]
    dsimp only
    omega
  · intro sso
    rw [Tx.count_bound hr sso, h.bindings sso, countP_snoc]

theorem History.drift (h : History calls draw d l) (hd : sessions.drift d d') : History calls draw d' l := by
  obtain ⟨hc, hb, hch, gone, hs⟩ := hd
  refine
    { ids := hc ▸ h.ids, secrets := hc ▸ h.secrets, current := hc ▸ h.current, boundIds := hb ▸ h.boundIds, sent := h.sent
      keys := fun e he _ _ _ hk => let ⟨r, hm, hr⟩ := h.keys e he _ _ _ hk; ⟨r, hb.symm ▸ hm, hr⟩, opened := ?_, context := ?_, bound := ?_, renewed := h.renewed, made := hch ▸ h.made, consumed := h.consumed
      once := hch ▸ h.once, registered := hch ▸ h.registered, bindings := hb ▸ h.bindings }
  · intro s hm
    rw [hs] at hm
    obtain ⟨o, ho, rfl⟩ := List.mem_map.mp hm
    rw [hc]
    exact h.opened o ho
  · intro x hm
    rw [hc] at hm
    obtain ⟨s, hm, he⟩ := h.context x hm
    refine ⟨{ s with revoked := s.revoked || gone s }, ?_, he⟩
    rw [hs]
    exact List.mem_map.mpr ⟨s, hm, rfl⟩
  · rw [hb, hc]
    exact h.bound

variable (calls draw) in
/-- Every caller sends what its request makes of what it has read and drawn. -/
def binding : Discipline ι Db Tx where
  inv := History calls draw
  sent i tx d _ := Sends calls draw i d tx
  noted _ _ _ _ := False

theorem kept_bound (sessionId ssoId : String) (key : List UInt8) :
    Kept sessions (binding calls draw) fun d _ => Bound d sessionId ssoId key :=
  ⟨fun _ _ _ _ _ _ _ hr h => h.step hr, fun _ _ _ _ hd ⟨r, hm, h⟩ => ⟨r, hd.2.1.symm ▸ hm, h⟩⟩

theorem Sends.step {i : ι} {tx t : Tx} (hr : tx.run d = some d') (h : Sends calls draw i d t) : Sends calls draw i d' t := by
  cases t with
  | signIn | fail | register => exact h
  | challenge now row =>
    obtain ⟨hn, hrow | hrow | ⟨sessionId, ssoId, key, hsid, hb⟩⟩ := h
    · exact ⟨hn, .inl hrow⟩
    · exact ⟨hn, .inr (.inl hrow)⟩
    · exact ⟨hn, .inr (.inr ⟨sessionId, ssoId, key, hsid, hb.step hr⟩)⟩
  | refresh p =>
    obtain ⟨request, jwt, key, hcall, hjwt, hsig, hb, hnew⟩ := h
    exact ⟨request, jwt, key, hcall, hjwt, hsig, hb.step hr, hnew⟩

theorem Sends.drift {i : ι} {t : Tx} (hd : sessions.drift d d') (h : Sends calls draw i d t) : Sends calls draw i d' t := by
  have hbound : ∀ {sessionId ssoId : String} {key : List UInt8}, Bound d sessionId ssoId key → Bound d' sessionId ssoId key :=
    fun ⟨r, hm, h⟩ => ⟨r, hd.2.1.symm ▸ hm, h⟩
  cases t with
  | signIn | fail | register => exact h
  | challenge now row =>
    obtain ⟨hn, hrow | hrow | ⟨sessionId, ssoId, key, hsid, hb⟩⟩ := h
    · exact ⟨hn, .inl hrow⟩
    · exact ⟨hn, .inr (.inl hrow)⟩
    · exact ⟨hn, .inr (.inr ⟨sessionId, ssoId, key, hsid, hbound hb⟩)⟩
  | refresh p =>
    obtain ⟨request, jwt, key, hcall, hjwt, hsig, hb, hnew⟩ := h
    exact ⟨request, jwt, key, hcall, hjwt, hsig, hbound hb, hnew⟩

theorem binding_keeps : Keeps sessions (binding calls draw) :=
  ⟨⟨fun _ _ _ _ _ h hs hr _ => h.step (hs.resolve_right id) hr, fun _ _ _ h hd _ => h.drift hd⟩,
    fun _ _ => ⟨fun _ _ _ _ _ _ _ hr h => h.step hr, fun _ _ _ _ hd h => h.drift hd⟩⟩

/-! ## The programs -/

variable {i : ι}

theorem gives_challenge (request : Request) (n : Nat) {drawn : String} {sessionId : Option String} {R : Db → Prop}
    (hR : ∀ d, R d → ∀ now, Sends calls draw i d (.challenge now ⟨drawn, sessionId, now + 120⟩))
    (hkept : Kept sessions (binding calls draw) fun d _ => R d) :
    Ensures (world sessions) (contract sessions (binding calls draw)) i (fun s => R s.db)
      (createChallenge request n drawn sessionId) fun _ _ => True := by
  have hframe := (Vault.gives_demand (K := binding calls draw) (i := i) (Y := sessions) (request.clock n) Failure.server).frame
    (hkept.lasting (ε := Failure))
  refine (hframe.weaken fun _ _ h => ⟨trivial, h⟩).bind fun now => ?_
  have hcommit : Ensures (world sessions) (contract sessions (binding calls draw)) i
      (fun s => request.clock n = some now ∧ R s.db) (commit (.challenge now ⟨drawn, sessionId, now + 120⟩) : Route Unit)
      fun _ s => Applied i _ s.log := spec_commit binding_keeps fun s _ h => hR s.db h.2 now
  exact hcommit.bind fun _ => .pure fun _ _ _ => trivial

/-- A commit that the caller may send anyway. -/
theorem gives_commit {tx : Tx} (h : ∀ d, Sends calls draw i d tx) :
    Ensures (world sessions) (contract sessions (binding calls draw)) i (fun _ => True) (commit tx : Route Unit)
      fun _ _ => True := by
  have hcommit : Ensures (world sessions) (contract sessions (binding calls draw)) i (fun _ => True)
      (commit tx : Route Unit) fun _ s => Applied i tx s.log := spec_commit binding_keeps fun s _ _ => h s.db
  exact hcommit.post fun _ _ _ _ => trivial

theorem gives_challengeIsLive (challenge session : String) (now : Nat) :
    Ensures (world sessions) (contract sessions (binding calls draw)) i (fun _ => True)
      (challengeIsLive challenge session now) fun _ _ => True :=
  spec_any.bind fun _ => .pure fun _ _ _ => trivial

theorem gives_finish {site : Site} {request : Request} {input : LoginFinish} (hcall : calls i = .signIn request input) :
    Ensures (world sessions) (contract sessions (binding calls draw)) i (fun _ => True)
      (finish site request input (draw i)) fun _ _ => True := by
  unfold finish
  refine (Vault.gives_fails _ _).andThen fun _ _ => (Vault.gives_demand _ _).andThen fun browser _ => ?_
  refine (Vault.gives_fails _ _).andThen fun _ _ => spec_any.bind fun d => (Vault.gives_demand _ _).andThen fun login _ => ?_
  refine spec_any.bind fun d' => (Vault.gives_demand _ _).andThen fun credential _ => ?_
  refine (Vault.gives_demand _ _).andThen fun account _ => (Vault.gives_demand _ _).andThen fun passkey _ => ?_
  refine (Vault.gives_demand _ _).andThen fun now _ => ?_
  cases input.authenticate login passkey now with
  | none => exact (gives_commit (by intro _; trivial)).bind fun _ => .throw
  | some proof =>
    refine (Vault.gives_fails _ _).andThen fun _ _ => ?_
    refine (gives_commit (by intro _; exact ⟨⟨request, input, hcall⟩, rfl, rfl⟩)).bind fun _ => ?_
    have hchallenge : Ensures (world sessions) (contract sessions (binding calls draw)) i (fun _ => True)
        (createChallenge request 1 (draw i 2) (some (draw i 0))) fun _ _ => True :=
      gives_challenge request 1 (fun _ _ _ => ⟨⟨2, rfl⟩, .inl ⟨⟨request, input, hcall⟩, rfl⟩⟩) (.const True)
    exact hchallenge.attempt.bind fun _ => .pure fun _ _ _ => trivial

theorem gives_challengeEndpoint (request : Request) :
    Ensures (world sessions) (contract sessions (binding calls draw)) i (fun _ => True)
      (challengeEndpoint request (draw i)) fun _ _ => True := by
  have hchallenge : Ensures (world sessions) (contract sessions (binding calls draw)) i (fun _ => True)
      (createChallenge request 0 (draw i 0) none) fun _ _ => True :=
    gives_challenge request 0 (fun _ _ _ => ⟨⟨0, rfl⟩, .inr (.inl rfl)⟩) (.const True)
  exact hchallenge.bind fun _ => .pure fun _ _ _ => trivial

theorem gives_register {site : Site} {request : Request} (hcall : calls i = .register request) :
    Ensures (world sessions) (contract sessions (binding calls draw)) i (fun _ => True)
      (register site request (draw i)) fun _ _ => True := by
  unfold register
  refine (Vault.gives_demand _ _).andThen fun now _ => (Vault.gives_demand _ _).andThen fun cookie hcookie => ?_
  refine spec_any.bind fun d => (Vault.gives_demand _ _).andThen fun session _ => ?_
  refine (Vault.gives_demand _ _).andThen fun header _ => (Vault.gives_demand _ _).andThen fun jwt _ => ?_
  refine (Vault.gives_fails _ _).andThen fun _ _ => (Vault.gives_demand _ _).andThen fun payload _ => ?_
  refine (Vault.gives_demand _ _).andThen fun jti _ => (Vault.gives_demand _ _).andThen fun verified _ => ?_
  refine (gives_commit (by intro _; exact ⟨request, cookie, hcall, hcookie, rfl, rfl, rfl⟩)).attempt.bind fun result => ?_
  refine Ensures.weaken (P := fun _ => True) ?_ fun _ _ _ => trivial
  by_cases hok : result.isOk = true
  · rw [if_pos hok]
    exact .pure fun _ _ _ => trivial
  · rw [if_neg hok]
    exact (gives_challengeIsLive _ _ _).bind fun _ => (Vault.gives_fails _ _).bind fun _ => .throw

/-- The bindings that are read are there from then on. -/
theorem gives_bound {F : Shared ι Db Tx → Prop} (hF : Stable (world (ε := Failure) sessions) (contract sessions (binding calls draw)) i F) :
    Ensures (world sessions) (contract sessions (binding calls draw)) i F (read : Route Db)
      fun d s => F s ∧ ∀ r ∈ d.bound, Bound s.db r.sessionId r.ssoId r.publicKeySec1 := by
  refine spec_read hF (R := fun d d' _ => ∀ r ∈ d.bound, Bound d' r.sessionId r.ssoId r.publicKeySec1) (fun d => ?_)
    fun d _ _ r hm => ⟨r, hm, rfl, rfl, rfl⟩
  exact .all fun r => .imp fun _ => kept_bound _ _ _

theorem gives_refresh {site : Site} {request : Request} (hcall : calls i = .refresh request) :
    Ensures (world sessions) (contract sessions (binding calls draw)) i (fun _ => True)
      (refresh site request (draw i)) fun _ _ => True := by
  unfold refresh
  refine (Vault.gives_demand _ _).andThen fun now _ => (Vault.gives_demand _ _).andThen fun header _ => ?_
  refine (Vault.gives_demand _ _).andThen fun sessionId _ => ?_
  -- The session is bound from the first lookup on.
  have hkept : Kept sessions (binding calls draw) fun d _ => ∃ ssoId key, Bound d sessionId ssoId key :=
    ⟨fun _ _ _ _ _ _ _ hr ⟨ssoId, key, h⟩ => ⟨ssoId, key, h.step hr⟩,
      fun _ _ _ _ hd ⟨ssoId, key, r, hm, h⟩ => ⟨ssoId, key, r, hd.2.1.symm ▸ hm, h⟩⟩
  have hlast := hkept.lasting (ε := Failure)
  have hsend : ∀ n d, (∃ ssoId key, Bound d sessionId ssoId key) → ∀ now,
      Sends calls draw i d (.challenge now ⟨draw i n, some sessionId, now + 120⟩) :=
    fun n _ ⟨ssoId, key, hb⟩ _ => ⟨⟨n, rfl⟩, .inr (.inr ⟨sessionId, ssoId, key, rfl, hb⟩)⟩
  have hchallenge : ∀ n m, Ensures (world sessions) (contract sessions (binding calls draw)) i
      (fun s => ∃ ssoId key, Bound s.db sessionId ssoId key) (createChallenge request m (draw i n) (some sessionId))
      fun _ _ => True := fun n m => gives_challenge request m (hsend n) hkept
  have hre : ∀ n m, Ensures (world sessions) (contract sessions (binding calls draw)) i
      (fun s => ∃ ssoId key, Bound s.db sessionId ssoId key) (rechallenge request m (draw i n) sessionId) fun _ _ => True :=
    fun n m => (hchallenge n m).bind fun _ => .pure fun _ _ _ => trivial
  refine (gives_bound (.const True)).bind fun d => Ensures.fails.bind fun _ => ?_
  refine Ensures.weaken (P := fun s => ∃ ssoId key, Bound s.db sessionId ssoId key) ?_ fun s _ h => ?_
  · cases hresponse : request.response with
    | none => exact hre 0 1
    | some header =>
      refine .carry hlast (Vault.gives_demand _ _) fun jwt hjwt => .carry hlast (Vault.gives_fails _ _) fun _ _ => ?_
      refine .carry hlast (Vault.gives_demand _ _) fun jti _ => (gives_bound (hlast.stable i)).bind fun d' => ?_
      have hread : Kept sessions (binding calls draw) fun d _ => (∃ ssoId key, Bound d sessionId ssoId key) ∧
          ∀ r ∈ d'.bound, Bound d r.sessionId r.ssoId r.publicKeySec1 :=
        hkept.and (.all fun r => .imp fun _ => kept_bound _ _ _)
      refine .carry (hread.lasting (ε := Failure)) (Vault.gives_demand _ _) fun session hsession => ?_
      obtain ⟨hmem, hid⟩ := lookup_mem hsession
      -- From here on the row that was read is the binding.
      have hrow : Kept sessions (binding calls draw) fun d _ => Bound d sessionId session.ssoId session.publicKeySec1 :=
        kept_bound _ _ _
      have hpast := hrow.lasting (ε := Failure)
      refine Ensures.weaken (P := fun s => Bound s.db sessionId session.ssoId session.publicKeySec1) ?_
        fun s _ h => hid ▸ h.2 session hmem
      refine .carry hpast (spec_any.post fun _ _ _ _ => (trivial : True)) fun d'' _ => ?_
      refine .carry hpast (Vault.gives_fails _ _) fun _ _ => .carry hpast (Vault.gives_demand _ _) fun proof hproof => ?_
      refine .carry hpast (gives_challengeIsLive _ _ _) fun live _ => ?_
      have hrest : ∀ n m, Ensures (world sessions) (contract sessions (binding calls draw)) i
          (fun s => Bound s.db sessionId session.ssoId session.publicKeySec1) (rechallenge request m (draw i n) sessionId)
          fun _ _ => True := fun n m => (hre n m).weaken fun s _ h => ⟨_, _, h⟩
      by_cases hlive : live = false
      · rw [if_pos hlive]
        exact hrest 0 1
      rw [if_neg hlive]
      have hcommit : Ensures (world sessions) (contract sessions (binding calls draw)) i
          (fun s => Bound s.db sessionId session.ssoId session.publicKeySec1)
          (commit (.refresh { challenge := jti, sessionId, ssoId := session.ssoId, newHash := Codec.hash (draw i 0), now }) : Route Unit)
          fun _ s => Applied i _ s.log :=
        spec_commit binding_keeps fun s _ h =>
          ⟨request, jwt, session.publicKeySec1, hcall, by rw [hresponse]; exact hjwt, verifyRefresh_signed hproof, h, rfl⟩
      refine ((hcommit.attempt.frame hpast).weaken fun s _ h => ⟨h, h⟩).bind fun result => ?_
      refine Ensures.weaken (P := fun s => Bound s.db sessionId session.ssoId session.publicKeySec1) ?_ fun s _ h => h.2
      by_cases hok : result.isOk = true
      · rw [if_pos hok]
        exact ((hchallenge 1 1).weaken fun s _ h => ⟨_, _, h⟩).bind fun _ => .pure fun _ _ _ => trivial
      rw [if_neg hok]
      refine .carry hpast (gives_challengeIsLive _ _ _) fun live' _ => ?_
      by_cases hlive' : live' = false
      · rw [if_pos hlive']
        exact hrest 1 1
      · rw [if_neg hlive']
        exact .throw
  · obtain ⟨r, hm, hid, -⟩ := Classical.not_not.mp h.2
    exact ⟨_, _, hid ▸ h.1.2 r hm⟩

theorem program_valid (site : Site) (i : ι) :
    Ensures (world sessions) (contract sessions (binding calls draw)) i (fun _ => True) ((calls i).program site (draw i))
      fun _ _ => True := by
  cases hcall : calls i with
  | signIn request input => exact gives_finish hcall
  | challenge request => exact gives_challengeEndpoint request
  | register request => exact gives_register hcall
  | refresh request => exact gives_refresh hcall

end

end Mikaki.Dbsc
