import Mikaki.Dbsc.SessionsSound

/-!
# Device-bound sessions over runs

A call makes at most one challenge and writes at most one secret. With what the
log says, a challenge is consumed once, a session is bound once, and a secret
that was replaced is not accepted again.
-/

namespace Mikaki.Dbsc

open Concurrent Concurrent.Prog Rows Transactions
open Mikaki.Vault (Accounts ContextRow Failure SessionRow)

variable {d d' : Db}

/-! ## How often a call sends -/

section
variable {φ : Tx → Bool} {m n : Nat}

theorem createChallenge_atMost (hchallenge : ∀ now row, AtMost (Request.carries φ) n (commit (.challenge now row) : Route Unit).run)
    (request : Request) (k : Nat) (drawn : String) (sessionId : Option String) :
    AtMost (Request.carries φ) n (createChallenge request k drawn sessionId).run :=
  .after (Vault.quiet_demand 0 _ _) fun _ => (hchallenge _ _).andThen (n := 0) fun _ => .ret _

theorem challengeIsLive_atMost (challenge session : String) (now : Nat) :
    AtMost (Request.carries φ) 0 (challengeIsLive challenge session now).run :=
  .after quiet_read fun _ => .ret _

variable [Codec]

/-- A call writes one secret and makes one challenge at most. -/
theorem program_atMost (hwrite : ∀ tx : Tx, tx.writes.isSome = true → AtMost (Request.carries φ) m (commit tx : Route Unit).run)
    (hchallenge : ∀ now row, AtMost (Request.carries φ) n (commit (.challenge now row) : Route Unit).run)
    (hfail : ∀ ownerLogin txId browserHash, φ (.fail ownerLogin txId browserHash) = false) (site : Site) (draw : Nat → String)
    (call : Call) : AtMost (Request.carries φ) (m + n) (call.program site draw).run := by
  have hcreate := createChallenge_atMost hchallenge
  have hre : ∀ request k drawn sessionId, AtMost (Request.carries φ) n (rechallenge request k drawn sessionId).run :=
    fun request k drawn sessionId => (hcreate request k drawn (some sessionId)).andThen (n := 0) fun _ => .ret _
  cases call with
  | signIn request input =>
    refine .after (Vault.quiet_fails 0 _ _) fun _ => .after (Vault.quiet_demand 0 _ _) fun browser => ?_
    refine .after (Vault.quiet_fails 0 _ _) fun _ => .after quiet_read fun d => .after (Vault.quiet_demand 0 _ _) fun login => ?_
    refine .after quiet_read fun d' => .after (Vault.quiet_demand 0 _ _) fun credential => ?_
    refine .after (Vault.quiet_demand 0 _ _) fun account => .after (Vault.quiet_demand 0 _ _) fun passkey => ?_
    refine .after (Vault.quiet_demand 0 _ _) fun now => ?_
    cases input.authenticate login passkey now with
    | none => exact .after (quiet_commit (hfail _ _ _)) fun _ => .ret _
    | some proof =>
      refine .after (Vault.quiet_fails 0 _ _) fun _ => (hwrite _ rfl).andThen fun _ => ?_
      exact (hcreate request 1 (draw 2) (some (draw 0))).attempt.andThen (n := 0) fun _ => .ret _
  | challenge request =>
    have h := (hcreate request 0 (draw 0) none).andThen (n := 0) (f := fun challenge => (pure ⟨none, none, some challenge⟩ : Route Reply))
      fun _ => .ret _
    exact AtMost.mono h (Nat.le_add_left _ _)
  | register request =>
    refine .after (Vault.quiet_demand 0 _ _) fun now => .after (Vault.quiet_demand 0 _ _) fun cookie => ?_
    refine .after quiet_read fun d => .after (Vault.quiet_demand 0 _ _) fun session => ?_
    refine .after (Vault.quiet_demand 0 _ _) fun header => .after (Vault.quiet_demand 0 _ _) fun jwt => ?_
    refine .after (Vault.quiet_fails 0 _ _) fun _ => .after (Vault.quiet_demand 0 _ _) fun payload => ?_
    refine .after (Vault.quiet_demand 0 _ _) fun jti => .after (Vault.quiet_demand 0 _ _) fun verified => ?_
    refine (AtMost.attempt (hwrite _ rfl)).andThen fun result => ?_
    by_cases hok : result.isOk = true
    · rw [if_pos hok]
      exact .ret _
    · rw [if_neg hok]
      exact .after (challengeIsLive_atMost _ _ _) fun _ => .after (Vault.quiet_fails 0 _ _) fun _ => .ret _
  | refresh request =>
    refine .after (Vault.quiet_demand 0 _ _) fun now => .after (Vault.quiet_demand 0 _ _) fun header => ?_
    refine .after (Vault.quiet_demand 0 _ _) fun sessionId => .after quiet_read fun d => .after (Vault.quiet_fails 0 _ _) fun _ => ?_
    cases request.response with
    | none => exact (hre _ _ _ _).mono (Nat.le_add_left _ _)
    | some header =>
      refine .after (Vault.quiet_demand 0 _ _) fun jwt => .after (Vault.quiet_fails 0 _ _) fun _ => ?_
      refine .after (Vault.quiet_demand 0 _ _) fun jti => .after quiet_read fun d' => .after (Vault.quiet_demand 0 _ _) fun session => ?_
      refine .after quiet_read fun d'' => .after (Vault.quiet_fails 0 _ _) fun _ => .after (Vault.quiet_demand 0 _ _) fun proof => ?_
      refine .after (challengeIsLive_atMost _ _ _) fun live => ?_
      by_cases hlive : live = false
      · rw [if_pos hlive]
        exact (hre _ _ _ _).mono (Nat.le_add_left _ _)
      rw [if_neg hlive]
      refine (AtMost.attempt (hwrite _ rfl)).andThen fun result => ?_
      by_cases hok : result.isOk = true
      · rw [if_pos hok]
        exact (hcreate _ _ _ _).andThen (n := 0) fun _ => .ret _
      rw [if_neg hok]
      refine .after (challengeIsLive_atMost _ _ _) fun live' => ?_
      by_cases hlive' : live' = false
      · rw [if_pos hlive']
        exact hre _ _ _ _
      · rw [if_neg hlive']
        exact .ret _

end

def Tx.isChallenge : Tx → Bool
  | .challenge .. => true
  | _ => false

section
variable {ι : Type} [DecidableEq ι] [Codec] {site : Site} {calls : ι → Call} {draw : ι → Nat → String}
  {c c' : Config ι (Shared ι Db Tx) (Transactions.Request Failure Db Tx) Transactions.Request.Reply (Except Failure Reply)}

theorem challenges_once (hr : Runs sessions (fun i p => p = ((calls i).program site (draw i)).run) d c) (i : ι) :
    c.state.log.countP (fun e => e.caller = i && e.tx.isChallenge) ≤ 1 := by
  refine Steps.atMost (φ := Tx.isChallenge) (fun p hp => ?_) hr
  rw [hp]
  refine program_atMost (fun tx hw => ?_) (fun now row => sends_commit _) (fun _ _ _ => rfl) site (draw i) (calls i)
  cases tx with
  | signIn | register | refresh => exact quiet_commit rfl
  | fail | challenge => cases hw

theorem secrets_once (hr : Runs sessions (fun i p => p = ((calls i).program site (draw i)).run) d c) (i : ι) :
    c.state.log.countP (fun e => e.caller = i && e.tx.writes.isSome) ≤ 1 := by
  refine Steps.atMost (φ := fun tx => tx.writes.isSome) (fun p hp => ?_) hr
  rw [hp]
  exact program_atMost (φ := fun tx => tx.writes.isSome) (n := 0) (fun tx _ => sends_commit _) (fun now row => quiet_commit rfl) (fun _ _ _ => rfl) site (draw i) (calls i)

theorem history_of_runs (hd : d.contexts = [] ∧ d.sessions = [] ∧ d.bound = [] ∧ d.challenges = [])
    (hr : Runs sessions (fun i p => p = ((calls i).program site (draw i)).run) d c) :
    History calls draw c.state.db c.state.log := by
  obtain ⟨hc, hs, hb, hch⟩ := hd
  have hstart : History calls draw d [] := by
    constructor
    all_goals simp [hc, hs, hb, hch, Rows.Unique, written, latest]
  have hentry : ∀ i p, p = ((calls i).program site (draw i)).run → Valid (world sessions) (contract sessions (binding calls draw)) i
      (fun _ _ => True) ((contract sessions (binding calls draw)).fresh i) p := by
    intro i p hp
    rw [hp]
    exact Valid.post (Valid.weaken (program_valid site i) fun _ _ _ => trivial) fun _ _ _ _ => trivial
  exact (Runs.good binding_keeps hentry hstart hr).1.1

/-! ## What is drawn once -/

variable (hdraw : ∀ i j m n, draw i m = draw j n → i = j ∧ m = n) {l : List (Transactions.Entry ι Db Tx)}
include hdraw

theorem History.makes_once (h : History calls draw d l)
    (hone : ∀ i, l.countP (fun e => e.caller = i && e.tx.isChallenge) ≤ 1) (challenge : String) :
    l.countP (fun e => e.tx.makes challenge) ≤ 1 := by
  have hmakes : ∀ e ∈ l, e.tx.makes challenge = true → e.tx.isChallenge = true ∧ ∃ n, challenge = draw e.caller n := by
    intro e he hm
    have hs := h.sent e he
    cases htx : e.tx with
    | challenge now row =>
      rw [htx] at hm hs
      obtain ⟨⟨n, hn⟩, -⟩ := hs
      exact ⟨rfl, n, (beq_iff_eq.mp hm).symm.trans hn⟩
    | signIn | fail | register | refresh => rw [htx] at hm; cases hm
  refine countP_le_one (φ := Tx.isChallenge) (ψ := Tx.makes challenge) hone (fun e he hm => (hmakes e he hm).1) ?_
  intro e he f hf hm hm'
  obtain ⟨-, n, hn⟩ := hmakes e he hm
  obtain ⟨-, k, hk⟩ := hmakes f hf hm'
  exact (hdraw _ _ n k (hn.symm.trans hk)).1

/-- A session gets one challenge of its own, from its sign-in. -/
theorem History.makesFor_once (h : History calls draw d l)
    (hone : ∀ i, l.countP (fun e => e.caller = i && e.tx.isChallenge) ≤ 1) {s : SessionRow} (hs : s ∈ d.sessions) :
    l.countP (fun e => e.tx.makesFor s.ssoId) ≤ 1 := by
  obtain ⟨-, k, request, input, hcall, hid⟩ := h.opened s hs
  have hmakes : ∀ e ∈ l, e.tx.makesFor s.ssoId = true → e.tx.isChallenge = true ∧ e.caller = k := by
    intro e he hm
    cases htx : e.tx with
    | challenge now row =>
      rw [htx] at hm
      refine ⟨rfl, ?_⟩
      rcases h.renewed e he now row s.ssoId htx (beq_iff_eq.mp hm) with ⟨hsid, -⟩ | ⟨j, request', hj, hsid⟩
      · exact (hdraw _ _ 0 0 (hsid.symm.trans hid)).1
      · obtain rfl := (hdraw j k 0 0 (hsid.symm.trans hid)).1
        rw [hcall] at hj
        cases hj
    | signIn | fail | register | refresh => rw [htx] at hm; cases hm
  refine countP_le_one (φ := Tx.isChallenge) (ψ := Tx.makesFor s.ssoId) hone (fun e he hm => (hmakes e he hm).1) ?_
  intro e he f hf hm hm'
  exact (hmakes e he hm).2.trans (hmakes f hf hm').2.symm

/-- A session is bound once. -/
theorem History.bound_once (h : History calls draw d l)
    (hone : ∀ i, l.countP (fun e => e.caller = i && e.tx.isChallenge) ≤ 1) (sso : String) :
    d.bound.countP (·.ssoId == sso) ≤ 1 := by
  by_cases hb : ∃ r ∈ d.bound, r.ssoId = sso
  · obtain ⟨r, hm, rfl⟩ := hb
    obtain ⟨⟨x, hx, he⟩, -⟩ := h.bound r hm
    obtain ⟨s, hs, he'⟩ := h.context x hx
    have hmake := h.makesFor_once hdraw hone hs
    rw [he', he] at hmake
    have hreg := h.registered r.ssoId
    rw [h.bindings]
    omega
  · rw [List.countP_eq_zero.mpr fun r hm he => hb ⟨r, hm, beq_iff_eq.mp he⟩]
    exact Nat.zero_le _

/-- Every secret is written once. -/
theorem History.secrets_nodup (hhash : ∀ i j m n, Codec.hash (draw i m) = Codec.hash (draw j n) → draw i m = draw j n)
    (h : History calls draw d l) (hone : ∀ i, l.countP (fun e => e.caller = i && e.tx.writes.isSome) ≤ 1) :
    ((written l).map Prod.snd).Nodup := by
  have hdrawn : ∀ e ∈ l, ∀ w, e.tx.writes = some w → ∃ n, w.2 = Codec.hash (draw e.caller n) := by
    intro e he w hw
    have hs := h.sent e he
    cases htx : e.tx with
    | fail | challenge => rw [htx] at hw; cases hw
    | signIn p =>
      rw [htx] at hw hs
      cases hw
      exact ⟨1, hs.2.2⟩
    | register p =>
      rw [htx] at hw hs
      cases hw
      obtain ⟨-, -, -, -, -, hnew, -⟩ := hs
      exact ⟨1, hnew⟩
    | refresh p =>
      rw [htx] at hw hs
      cases hw
      obtain ⟨-, -, -, -, -, -, -, hnew⟩ := hs
      exact ⟨0, hnew⟩
  refine List.nodup_iff_count_le_one.mpr fun secret => ?_
  rw [List.count, List.countP_map, written, List.countP_filterMap]
  refine countP_le_one (φ := fun tx : Tx => tx.writes.isSome) (ψ := fun tx : Tx => (tx.writes.map ((· == secret) ∘ Prod.snd)).getD false)
    hone (fun e _ hw => ?_) fun e he f hf hw hw' => ?_
  · cases hwe : e.tx.writes with
    | none => rw [hwe] at hw; cases hw
    | some w => rfl
  · have hget : ∀ g ∈ l, (g.tx.writes.map ((· == secret) ∘ Prod.snd)).getD false = true →
        ∃ n, secret = Codec.hash (draw g.caller n) := by
      intro g hg hw
      cases hwg : g.tx.writes with
      | none => rw [hwg] at hw; cases hw
      | some w =>
        rw [hwg] at hw
        obtain ⟨n, hn⟩ := hdrawn g hg w hwg
        exact ⟨n, (beq_iff_eq.mp hw).symm.trans hn⟩
    obtain ⟨n, hn⟩ := hget e he hw
    obtain ⟨k, hk⟩ := hget f hf hw'
    exact (hdraw _ _ n k (hhash _ _ _ _ (hn.symm.trans hk))).1

end

/-! ## Bindings over a run -/

section
variable {ι : Type} [DecidableEq ι]
  {entry : ι → Prog (Transactions.Request Failure Db Tx) Transactions.Request.Reply (Except Failure Reply) → Prop}
  {c c' : Config ι (Shared ι Db Tx) (Transactions.Request Failure Db Tx) Transactions.Request.Reply (Except Failure Reply)}

/-- A binding stays as it is until a refresh of it commits. -/
theorem bound_until (h : Steps (world sessions) entry c c') {r : BoundRow} (hm : r ∈ c.state.db.bound) :
    ∃ l, c'.state.log = c.state.log ++ l ∧
      ((∃ e ∈ l, ∃ p, e.tx = .refresh p ∧ p.sessionId = r.sessionId) ∨ r ∈ c'.state.db.bound) := by
  induction h with
  | refl => exact ⟨[], (List.append_nil _).symm, .inr hm⟩
  | @tail b c' _ hstep ih =>
    obtain ⟨l, hl, hcase⟩ := ih
    rcases step_db hstep with ⟨hdb, hlog⟩ | ⟨e, hlog, -, hrun⟩ | ⟨hdrift, hlog⟩
    · exact ⟨l, hlog.trans hl, by rw [hdb]; exact hcase⟩
    · refine ⟨l ++ [e], by rw [hlog, hl, List.append_assoc], ?_⟩
      rcases hcase with ⟨f, hf, hp⟩ | hr
      · exact .inl ⟨f, List.mem_append_left _ hf, hp⟩
      · obtain ⟨r', hr', -, -, -, rfl | ⟨p, htx, hid⟩⟩ := Tx.bound_stays hrun hr
        · exact .inr hr'
        · exact .inl ⟨e, List.mem_append_right _ List.mem_cons_self, p, htx, hid⟩
    · exact ⟨l, hlog.trans hl, hcase.imp_right fun hr => by rw [hdrift.2.1]; exact hr⟩

/-- A key once bound stays bound. -/
theorem Bound.steps (h : Steps (world sessions) entry c c') {sessionId ssoId : String} {key : List UInt8}
    (hb : Bound c.state.db sessionId ssoId key) : Bound c'.state.db sessionId ssoId key := by
  induction h with
  | refl => exact hb
  | tail _ hstep ih =>
    rcases step_db hstep with ⟨hdb, -⟩ | ⟨e, -, -, hrun⟩ | ⟨hdrift, -⟩
    · rw [hdb]
      exact ih
    · exact ih.step hrun
    · obtain ⟨r, hm, hr⟩ := ih
      exact ⟨r, hdrift.2.1.symm ▸ hm, hr⟩

/-- Behind a secret there is one session, and a binding that has run out shuts it. -/
theorem shut_out {d : Db} (hids : Unique ContextRow.secretHash d.contexts) {r : BoundRow} (hr : r ∈ d.bound) {secretHash : String}
    {now : Nat} (hsecret : ⟨r.ssoId, secretHash⟩ ∈ d.contexts) (hnow : r.cookieExpiresAt ≤ now) :
    d.around.owner secretHash now = none ∧ ∀ client redirect, d.authorization secretHash client redirect now = none := by
  have hsession : ∀ ss, d.around.live secretHash now ss → ss.ssoId = r.ssoId := by
    rintro ss ⟨⟨sx, hsx, hhash, hid⟩, -⟩
    rw [← hid, hids.eq hsx hsecret hhash]
  constructor
  · rw [Accounts.owner, Option.map_eq_none_iff, List.find?_eq_none]
    intro ss _ h
    simp only [decide_eq_true_eq] at h
    exact h.2 ⟨⟨r.ssoId, r.cookieExpiresAt⟩, List.mem_map_of_mem hr, (hsession ss h.1).symm, hnow⟩
  · intro client redirect
    rw [Db.authorization, List.find?_eq_none]
    intro ss _ h
    simp only [decide_eq_true_eq] at h
    exact h.2.1 ⟨r, hr, (hsession ss h.1).symm, hnow⟩

end

/-! ## Every run -/

/-- Sign-ins, registrations, refreshes and challenges of any number of callers, each of which draws its own values. -/
theorem device_bound_sessions {ι : Type} [DecidableEq ι] [Codec] {site : Site} {calls : ι → Call} {draw : ι → Nat → String}
    (hdraw : ∀ i j m n, draw i m = draw j n → i = j ∧ m = n)
    (hhash : ∀ i j m n, Codec.hash (draw i m) = Codec.hash (draw j n) → draw i m = draw j n)
    (hd : d.contexts = [] ∧ d.sessions = [] ∧ d.bound = [] ∧ d.challenges = [])
    {c : Config ι (Shared ι Db Tx) (Transactions.Request Failure Db Tx) Transactions.Request.Reply (Except Failure Reply)}
    (hr : Runs sessions (fun i p => p = ((calls i).program site (draw i)).run) d c) :
    -- A challenge is consumed at most once, and for the session it was made for.
    (∀ challenge, c.state.log.countP (fun e => e.tx.consumed challenge) ≤ 1) ∧
    (∀ e ∈ c.state.log, ∀ challenge session, e.tx.consumes = some (challenge, session) →
      (∃ f ∈ c.state.log, f.tx.makes challenge = true) ∧
        ∀ f ∈ c.state.log, ∀ now row, f.tx = .challenge now row → row.challenge = challenge → row.sessionId = some session) ∧
    -- A session is bound to one key.
    (∀ sso, c.state.db.bound.countP (·.ssoId == sso) ≤ 1) ∧
    -- A session has one secret, and a secret is one session's.
    (∀ s ∈ c.state.db.sessions, ∃! secretHash, (⟨s.ssoId, secretHash⟩ : ContextRow) ∈ c.state.db.contexts) ∧
    Unique ContextRow.secretHash c.state.db.contexts ∧
    -- It changes by the one registration that presents it, or by a refresh signed with the key of the binding.
    (∀ c', Step (world sessions) (fun i p => p = ((calls i).program site (draw i)).run) c c' → ∀ x ∈ c.state.db.contexts,
      x ∈ c'.state.db.contexts ∨ ∃ e, c'.state.log = c.state.log ++ [e] ∧
        ((∃ p request cookie, e.tx = .register p ∧ p.ssoId = x.ssoId ∧ calls e.caller = .register request ∧
            request.cookie = some cookie ∧ Codec.hash cookie = x.secretHash ∧ ∀ r ∈ c.state.db.bound, r.ssoId ≠ x.ssoId) ∨
          ∃ p request jwt key, e.tx = .refresh p ∧ calls e.caller = .refresh request ∧
            request.response.bind structuredString = some jwt ∧ Signed jwt p.challenge key ∧
            Bound c.state.db p.sessionId x.ssoId key)) ∧
    -- A secret that was replaced never comes back, and only a session's own secret is accepted.
    (∀ c' c'', Steps (world sessions) (fun i p => p = ((calls i).program site (draw i)).run) c c' →
      Steps (world sessions) (fun i p => p = ((calls i).program site (draw i)).run) c' c'' → ∀ x ∈ c.state.db.contexts,
      (∀ y ∈ c'.state.db.contexts, y.secretHash ≠ x.secretHash) → ∀ y ∈ c''.state.db.contexts, y.secretHash ≠ x.secretHash) ∧
    (∀ secretHash now, (∀ x ∈ c.state.db.contexts, x.secretHash ≠ secretHash) →
      c.state.db.around.owner secretHash now = none ∧
        ∀ client redirect, c.state.db.authorization secretHash client redirect now = none) ∧
    -- Once a session is bound, nobody is admitted from the expiry of its cookie on, until a refresh signed with the key commits.
    (∀ r ∈ c.state.db.bound, ∀ c', Steps (world sessions) (fun i p => p = ((calls i).program site (draw i)).run) c c' →
      ∃ l, c'.state.log = c.state.log ++ l ∧
        ((∃ e ∈ l, ∃ p request jwt, e.tx = .refresh p ∧ p.sessionId = r.sessionId ∧ calls e.caller = .refresh request ∧
            request.response.bind structuredString = some jwt ∧ Signed jwt p.challenge r.publicKeySec1) ∨
          ∀ secretHash now, ⟨r.ssoId, secretHash⟩ ∈ c'.state.db.contexts → r.cookieExpiresAt ≤ now →
            c'.state.db.around.owner secretHash now = none ∧
              ∀ client redirect, c'.state.db.authorization secretHash client redirect now = none)) := by
  have hist := history_of_runs hd hr
  have hmakes := hist.makes_once hdraw (challenges_once hr)
  have hpast : ∀ {c'}, Steps (world sessions) (fun i p => p = ((calls i).program site (draw i)).run) c c' →
      History calls draw c'.state.db c'.state.log := fun hs => history_of_runs hd (hr.trans hs)
  refine ⟨fun challenge => ?_, ?_, hist.bound_once hdraw (challenges_once hr), ?_, hist.secrets, ?_, ?_, ?_, ?_⟩
  · have honce := hist.once challenge
    have hmake := hmakes challenge
    omega
  · intro e he challenge session hc
    obtain ⟨f, hf, now, expiresAt, htx⟩ := hist.consumed e he challenge session hc
    have hmf : f.tx.makes challenge = true := by rw [htx]; exact beq_self_eq_true challenge
    refine ⟨⟨f, hf, hmf⟩, fun g hg now' row hgtx hrow => ?_⟩
    have hmg : g.tx.makes challenge = true := by rw [hgtx]; exact beq_iff_eq.mpr hrow
    obtain rfl := eq_of_countP_le_one (hmakes challenge) hf hg hmf hmg
    rw [htx] at hgtx
    cases hgtx
    rfl
  · intro s hs
    obtain ⟨⟨⟨sso, secretHash⟩, hx, rfl⟩, -⟩ := hist.opened s hs
    refine ⟨secretHash, hx, fun other ho => ?_⟩
    exact congrArg ContextRow.secretHash (hist.ids.eq ho hx rfl)
  · intro c' hstep x hx
    have hist' := hpast (.single hstep)
    have hone' := hist'.bound_once hdraw (challenges_once (hr.tail hstep)) x.ssoId
    rcases step_db hstep with ⟨hdb, -⟩ | ⟨e, hlog, hbefore, hrun⟩ | ⟨hdrift, -⟩
    · exact .inl (hdb ▸ hx)
    · have hsent := hist'.sent e (hlog ▸ List.mem_append_right _ List.mem_cons_self)
      rw [hbefore] at hsent
      by_cases hin : x ∈ c'.state.db.contexts
      · exact .inl hin
      refine .inr ⟨e, hlog, ?_⟩
      -- A batch that leaves the secret of the session alone leaves the row.
      have hsame : ∃ secretHash, e.tx.writes = some (x.ssoId, secretHash) := by
        rcases Tx.contexts_step hrun hist.ids hist.secrets with ⟨-, hd⟩ | ⟨sso, secretHash, hw, hrot⟩
        · exact absurd (hd ▸ hx) hin
        · by_cases hs : x.ssoId = sso
          · exact ⟨secretHash, hs ▸ hw⟩
          · exact absurd ((hrot.mem x).mpr (.inr ⟨hx, hs⟩)) hin
      obtain ⟨secretHash, hw⟩ := hsame
      cases htx : e.tx with
      | fail | challenge => rw [htx] at hw; cases hw
      | signIn p =>
        rw [htx] at hw hrun
        have hsso : p.ssoId = x.ssoId := congrArg Prod.fst (Option.some.inj hw)
        exact absurd hsso.symm ((SignIn.run_opens hrun).ids x hx)
      | register p =>
        rw [htx] at hw hrun hsent
        have hsso : p.ssoId = x.ssoId := congrArg Prod.fst (Option.some.inj hw)
        obtain ⟨request, cookie, hcall, hcookie, hcurrent, -, -⟩ := hsent
        have hpresented := hist.ids.eq hx (Register.run_binds hrun).presented hsso.symm
        refine .inl ⟨p, request, cookie, rfl, hsso, hcall, hcookie, ?_, fun r hm he => ?_⟩
        · rw [← hcurrent, hpresented]
        · have hcount := Tx.count_bound (show (Tx.register p).run c.state.db = some c'.state.db from hrun) x.ssoId
          have hpos : 0 < c.state.db.bound.countP (·.ssoId == x.ssoId) := List.countP_pos_iff.mpr ⟨r, hm, beq_iff_eq.mpr he⟩
          have hreg : ((Tx.register p).registers x.ssoId).toNat = 1 := by rw [hpresented]; simp [Tx.registers]
          omega
      | refresh p =>
        rw [htx] at hw hsent
        have hsso : p.ssoId = x.ssoId := congrArg Prod.fst (Option.some.inj hw)
        obtain ⟨request, jwt, key, hcall, hjwt, hsigned, hb, -⟩ := hsent
        exact .inr ⟨p, request, jwt, key, rfl, hcall, hjwt, hsigned, hsso ▸ hb⟩
    · exact .inl (hdrift.1 ▸ hx)
  · intro c' c'' hs hs' x hx hgone y hy hsame
    have hist' := hpast hs
    have hist'' := hpast (hs.trans hs')
    obtain ⟨l, hl⟩ := steps_log hs
    obtain ⟨l', hl'⟩ := steps_log hs'
    have hnodup := hist''.secrets_nodup hdraw hhash (secrets_once (hr.trans (hs.trans hs')))
    have hcurrent := (hist''.current y).mp hy
    have hw : written c''.state.log = written c'.state.log ++ written l' := by
      rw [hl', written, written, written, List.filterMap_append]
    rw [hw] at hnodup hcurrent
    rw [hsame] at hcurrent
    refine latest_once hnodup ?_ (fun sso h => hgone ⟨sso, x.secretHash⟩ ((hist'.current _).mpr h) rfl) y.ssoId hcurrent
    have hold := latest_mem ((hist.current x).mp hx)
    rw [hl, written, List.filterMap_append]
    exact List.mem_map.mpr ⟨_, List.mem_append_left _ hold, rfl⟩
  · intro secretHash now hnone
    have hdead : ∀ ss, ¬c.state.db.around.live secretHash now ss := by
      rintro ss ⟨⟨sx, hsx, hhash, -⟩, -⟩
      exact hnone sx hsx hhash
    constructor
    · rw [Accounts.owner, Option.map_eq_none_iff, List.find?_eq_none]
      intro ss _ h
      exact hdead ss (of_decide_eq_true h).1
    · intro client redirect
      rw [Db.authorization, List.find?_eq_none]
      intro ss _ h
      exact hdead ss (of_decide_eq_true h).1
  · intro r hm c' hs
    have hist' := hpast hs
    obtain ⟨l, hl, ⟨e, he, p, htx, hid⟩ | hstays⟩ := bound_until hs hm
    · refine ⟨l, hl, .inl ⟨e, he, p, ?_⟩⟩
      have hlog : e ∈ c'.state.log := hl ▸ List.mem_append_right _ he
      have hsent := hist'.sent e hlog
      rw [htx] at hsent
      obtain ⟨request, jwt, key, hcall, hjwt, hsigned, hb, -⟩ := hsent
      -- The key of the refresh is the key of the binding: bindings stay, and a session identifier is one binding's.
      obtain ⟨o, ho, hoid, -, rfl⟩ := hist'.keys e hlog _ _ _ hb
      obtain ⟨o', ho', hoid', -, hkey⟩ := Bound.steps hs ⟨r, hm, rfl, rfl, rfl⟩
      obtain rfl := hist'.boundIds.eq ho ho' (hoid.trans (hid.trans hoid'.symm))
      exact ⟨request, jwt, htx, hid, hcall, hjwt, hkey ▸ hsigned⟩
    · exact ⟨l, hl, .inr fun secretHash now hsecret hnow => shut_out hist'.secrets hstays hsecret hnow⟩

/-! ## A session that is bound and refreshed -/

def Sample.draw (i n : Nat) : String :=
  String.ofList (List.replicate 16 'x' ++ (List.replicate i 'a' ++ 'b' :: List.replicate n 'c'))

theorem Sample.draw_inj {i j m n : Nat} (h : Sample.draw i m = Sample.draw j n) : i = j ∧ m = n := by
  have hl := List.append_cancel_left (String.ofList_inj.mp h)
  have ha := congrArg (List.count 'a') hl
  have hc := congrArg (List.count 'c') hl
  simp [List.count_append, List.count_replicate] at ha hc
  exact ⟨ha, hc⟩

def Sample.text (bytes : List UInt8) : String := String.ofList (bytes.map fun b => Char.ofNat b.toNat)

/-- The payload of a proof is its challenge, and every key verifies. -/
@[reducible] def Sample.codec : Codec :=
  { decode64 := fun s => some (Text.bytes s), encode64 := Sample.text, hash := id
    header := fun _ => some ⟨"ES256", "dbsc+jwt", some ⟨"EC", "P-256", Sample.draw 15 0, Sample.draw 15 0, none, none, none⟩, []⟩
    claims := fun bytes => some ⟨Sample.text bytes, none, none, none, none⟩, jti := fun bytes => some (Sample.text bytes)
    thumbprint := id, es256 := fun _ _ _ => true }

def Sample.site : Site := ⟨"https://op.example", 3600⟩

def Sample.txId : String := String.ofList (List.replicate 43 't')

def Sample.db : Db :=
  { contexts := [], sessions := [], accounts := [⟨"owner", 1, true⟩], credentials := [⟨"passkey", "owner", true⟩]
    logins := [⟨2, Sample.txId, "browser", "", 200, false, 0, false⟩], passkeys := [⟨"passkey", [], "", 0, false, false, 1⟩]
    redirects := [], connections := [], bound := [], challenges := [], unixepoch := 100 }

def Sample.request (cookie sessionId response : Option String) : Request :=
  { origin := some "https://op.example", browser := some "browser", cookie, sessionId, response, clock := fun _ => some 100 }

def Sample.jwt (challenge : String) : String := "h." ++ challenge ++ ".s"

/-- A sign-in, a registration, a refresh without a proof and one with it. -/
def Sample.call : Nat → Call
  | 0 => .signIn (Sample.request none none none) ⟨Sample.txId, true, "passkey", fun _ _ _ => some (1, false, true)⟩
  | 1 => .register (Sample.request (some (Sample.draw 0 1)) none (some (Sample.jwt (Sample.draw 0 2))))
  | 2 => .refresh (Sample.request none (some (Sample.draw 1 0)) none)
  | _ => .refresh (Sample.request none (some (Sample.draw 1 0)) (some (Sample.jwt (Sample.draw 2 0))))

def Sample.moves : List (Move Nat Failure Db Tx (Except Failure Reply)) :=
  let _ := Sample.codec
  let turn (i n : Nat) : List (Move Nat Failure Db Tx (Except Failure Reply)) :=
    .start i ((Sample.call i).program Sample.site (Sample.draw i)).run :: List.replicate n (.go i)
  turn 0 4 ++ turn 1 2 ++ turn 2 2 ++ turn 3 6

theorem Sample.played :
    (play sessions Failure.server Sample.moves (.initial (.initial Sample.db))).map
      (fun c => c.state.db.contexts) = some [⟨Sample.draw 0 0, Sample.draw 3 0⟩] := by
  decide +kernel

/-- After the refresh the session has the secret that the refresh has drawn, and is bound once. -/
theorem device_bound_sessions_refreshed :
    let _ := Sample.codec
    ∃ c : Config Nat (Shared Nat Db Tx) (Transactions.Request Failure Db Tx) Transactions.Request.Reply (Except Failure Reply),
      Runs sessions (fun i p => p = ((Sample.call i).program Sample.site (Sample.draw i)).run) Sample.db c ∧
        c.state.db.contexts = [⟨Sample.draw 0 0, Sample.draw 3 0⟩] ∧
        ∀ sso, c.state.db.bound.countP (·.ssoId == sso) ≤ 1 := by
  intro _
  obtain ⟨c, hc, hcontexts⟩ := Option.map_eq_some_iff.mp Sample.played
  have hr : Runs sessions (fun i p => p = ((Sample.call i).program Sample.site (Sample.draw i)).run) Sample.db c := by
    refine play_steps (fun i p hm => ?_) (fun f hm => ?_) hc
    · simp only [Sample.moves, List.mem_append, List.mem_cons, List.mem_replicate, reduceCtorEq, and_false, or_false,
        Move.start.injEq] at hm
      rcases hm with ((⟨rfl, rfl⟩ | ⟨rfl, rfl⟩) | ⟨rfl, rfl⟩) | ⟨rfl, rfl⟩
      all_goals rfl
    · simp [Sample.moves] at hm
  exact ⟨c, hr, hcontexts, (device_bound_sessions (fun _ _ _ _ h => Sample.draw_inj h) (fun _ _ _ _ h => h)
    ⟨rfl, rfl, rfl, rfl⟩ hr).2.2.1⟩

end Mikaki.Dbsc
