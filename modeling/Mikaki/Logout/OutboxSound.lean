import Mikaki.Logout.Outbox

/-!
# Logout deliveries in every run

Leases are counted on the clock of the database, which is never behind the one
a claim has read. Who settles is the caller that drew the lease.
-/

namespace Mikaki.Logout

open Concurrent Rows Transactions
open Mikaki.Vault (Failure demand)

variable {d d' : Db}

/-! ## What is kept -/

/-- Unique rows, at most two unexpired leases, and at most one of a client. -/
structure Outbox (d : Db) : Prop where
  clientSessions : Unique ClientSessionRow.key d.clientSessions
  events : Unique EventRow.eventId d.events
  sessions : Unique EventRow.ssoId d.events
  deliveries : Unique DeliveryRow.key d.deliveries
  few : (d.busy d.clock).length ≤ globalConcurrency
  alone : ∀ client, (d.busyFor client d.clock).length ≤ 1

theorem DeliveryState.busy_later {s : DeliveryState} {now later : Nat} (h : now ≤ later) (hb : s.busy later = true) :
    s.busy now = true := by
  cases s with
  | leased id leaseUntil =>
    simp only [busy, decide_eq_true_eq] at hb ⊢
    omega
  | _ => cases hb

/-- What an update leaves busy was busy. -/
theorem Outbox.unleased (h : Outbox d) (hc : d.clock ≤ d'.clock) (hcs : Unique ClientSessionRow.key d'.clientSessions)
    (he : d'.events = d.events) {r : DeliveryRow → Prop} [DecidablePred r] {f : DeliveryRow → DeliveryRow}
    (hd : d'.deliveries = update r f d.deliveries) (hk : ∀ a, (f a).key = a.key) (hf : ∀ a, (f a).state.lease = none) :
    Outbox d' := by
  have hidle : ∀ a, (f a).state.busy d'.clock = false := by
    intro a
    have ha := hf a
    cases hs : (f a).state with
    | leased id leaseUntil => rw [hs] at ha; cases ha
    | _ => rfl
  refine ⟨hcs, he ▸ h.events, he ▸ h.sessions, hd ▸ h.deliveries.update fun a _ _ => hk a, ?_, fun client => ?_⟩
  · unfold Db.busy
    rw [hd]
    refine Nat.le_trans (length_filter_update_le (fun a _ _ hb => ?_) fun a _ _ hb => ?_) h.few
    · rw [hidle a] at hb
      cases hb
    · exact DeliveryState.busy_later hc hb
  · unfold Db.busyFor
    rw [hd]
    refine Nat.le_trans (length_filter_update_le (fun a _ _ hb => ?_) fun a _ _ hb => ?_) (h.alone client)
    · rw [hidle a, Bool.and_false] at hb
      cases hb
    · rw [Bool.and_eq_true] at hb ⊢
      exact ⟨hb.1, DeliveryState.busy_later hc hb.2⟩

theorem Outbox.drift (h : Outbox d) (hd : outbox.drift d d') : Outbox d' := by
  obtain ⟨hc, hcs, he, hdel, -⟩ := hd
  have hnone : update (fun _ : DeliveryRow => False) (fun a => { a with state := .pending }) d.deliveries = d.deliveries :=
    update_none fun _ _ => id
  exact h.unleased hc hcs he (hdel.trans hnone.symm) (fun _ => rfl) fun _ => rfl

/-! ### Claims -/

theorem Outbox.claim (h : Outbox d) {key : String × String × String} {now : Nat} (lease : String) (hnow : now ≤ d.clock) :
    Outbox (claim key now lease d) := by
  have hkey : ∀ a ∈ d.deliveries, claims key now d a → a.key = key := fun a _ ha => ha.1
  refine ⟨h.clientSessions, h.events, h.sessions, h.deliveries.update fun a _ _ => rfl, ?_, fun client => ?_⟩
  · by_cases hany : ∃ r ∈ d.deliveries, claims key now d r
    · -- The clock that was read counts every lease that the database counts.
      obtain ⟨r, -, -, -, -, -, hfew, -⟩ := hany
      have hone := h.deliveries.length_filter_update_le (p := fun a => a.state.busy d.clock) (q := fun a => a.state.busy now)
        (f := fun r => { r with state := .leased lease (now + leaseSeconds), attempts := r.attempts + 1 }) hkey
        fun a _ _ hb => DeliveryState.busy_later hnow hb
      exact Nat.le_trans hone hfew
    · have hnone : Logout.claim key now lease d = d := by
        unfold Logout.claim
        rw [update_none fun a ha hc => hany ⟨a, ha, hc⟩]
      rw [hnone]
      exact h.few
  · by_cases hany : ∃ r ∈ d.deliveries, claims key now d r ∧ r.clientId = client
    · obtain ⟨r, -, ⟨-, -, -, -, -, hidle⟩, rfl⟩ := hany
      have hone := h.deliveries.length_filter_update_le (p := fun a => a.clientId == r.clientId && a.state.busy d.clock)
        (q := fun a => a.clientId == r.clientId && a.state.busy now)
        (f := fun r => { r with state := .leased lease (now + leaseSeconds), attempts := r.attempts + 1 }) hkey
        fun a _ _ hb => by
          rw [Bool.and_eq_true] at hb ⊢
          exact ⟨hb.1, DeliveryState.busy_later hnow hb.2⟩
      exact Nat.le_trans hone hidle
    · refine Nat.le_trans (length_filter_update_le (fun a ha hc hb => ?_) fun a _ _ hb => hb) (h.alone client)
      rw [Bool.and_eq_true, beq_iff_eq] at hb
      exact absurd ⟨a, ha, hc, hb.1⟩ hany

/-! ### Confirmations -/

namespace Confirm

variable {p : Confirm}

/-- A confirmation revokes a live session, with one event and the rows of its client sessions. -/
structure Revokes (p : Confirm) (d d' : Db) : Prop where
  live : ∃ s ∈ d.sessions, p.live s ∧ { s with revoked := true } ∈ d'.sessions
  first : ∀ e ∈ d.events, e.ssoId ≠ p.ssoId
  fresh : ∀ e ∈ d.events, e.eventId ≠ p.eventId
  events : d'.events = d.events ++ [p.event]
  deliveries : d'.deliveries = d.deliveries ++ p.rows d
  unique : Unique DeliveryRow.key d.deliveries → Unique DeliveryRow.key d'.deliveries
  clock : d'.clock = d.clock
  sent : d'.sent = d.sent
  clientSessions : Unique ClientSessionRow.key d.clientSessions → Unique ClientSessionRow.key d'.clientSessions

theorem run_revokes (h : p.run d = some d') : p.Revokes d d' := by
  simp only [run, Option.bind_eq_bind, Option.bind_eq_some_iff, require_eq_some, Option.pure_def, Option.some.injEq] at h
  obtain ⟨-, -, -, ⟨s, hs, hlive⟩, -, hfirst, events, he, deliveries, hdel, rfl⟩ := h
  obtain ⟨⟨-, hfresh⟩, rfl⟩ := insert_eq_some.mp he
  obtain ⟨rfl, hu⟩ := foldlM_insert hdel
  exact ⟨⟨s, hs, hlive, mem_update.mpr ⟨s, hs, .inl ⟨hlive, rfl⟩⟩⟩, hfirst, hfresh, rfl, rfl, hu, rfl, rfl,
    fun hcs => hcs.update fun _ _ _ => rfl⟩

theorem mem_rows {r : DeliveryRow} :
    r ∈ p.rows d ↔ ∃ cs ∈ d.clientSessions, p.told d cs ∧ ∃ b, uri d cs.clientId = some b ∧ r = p.delivery cs b := by
  unfold rows
  rw [List.mem_filterMap]
  constructor
  · intro ⟨cs, hcs, h⟩
    by_cases ht : p.told d cs
    · rw [if_pos ht] at h
      obtain ⟨b, hb, rfl⟩ := Option.map_eq_some_iff.mp h
      exact ⟨cs, hcs, ht, b, hb, rfl⟩
    · rw [if_neg ht] at h
      cases h
  · intro ⟨cs, hcs, ht, b, hb, hr⟩
    refine ⟨cs, hcs, ?_⟩
    rw [if_pos ht, hb, hr]
    rfl

theorem rows_pending {r : DeliveryRow} (h : r ∈ p.rows d) : r.state = .pending ∧ r.eventId = p.eventId := by
  obtain ⟨cs, -, -, b, -, rfl⟩ := mem_rows.mp h
  exact ⟨rfl, rfl⟩

theorem Revokes.outbox (ho : Outbox d) (h : p.Revokes d d') : Outbox d' := by
  have hidle : ∀ (q : DeliveryRow → Bool), (∀ r, q r = true → r.state.busy d.clock = true) → (p.rows d).filter q = [] := by
    intro q hq
    refine List.filter_eq_nil_iff.mpr fun r hr hb => ?_
    have hbusy := hq r hb
    rw [(rows_pending hr).1] at hbusy
    cases hbusy
  refine ⟨h.clientSessions ho.clientSessions, h.events ▸ ho.events.snoc h.fresh, h.events ▸ ho.sessions.snoc h.first,
    h.unique ho.deliveries, ?_, fun client => ?_⟩
  · unfold Db.busy
    rw [h.deliveries, h.clock, List.filter_append, hidle _ fun _ => id, List.append_nil]
    exact ho.few
  · unfold Db.busyFor
    rw [h.deliveries, h.clock, List.filter_append, hidle _ fun r hb => (Bool.and_eq_true _ _ ▸ hb).2, List.append_nil]
    exact ho.alone client

end Confirm

/-! ## What the callers keep -/

theorem Tx.clock {tx : Tx} (h : tx.run d = some d') : d'.clock = d.clock := by
  cases tx with
  | confirm p => exact (Confirm.run_revokes h).clock
  | expire | claim | settle | send => cases h; rfl

section
variable {ι : Type}

/-- The caller has leased the row with the secret, on a clock that the database had passed. -/
def Claimed (i : ι) (key : String × String × String) (lease : String) (l : List (Transactions.Entry ι Db Tx)) : Prop :=
  ∃ now before, ⟨i, .claim key now lease, before⟩ ∈ l ∧ now ≤ before.clock ∧ ∃ r ∈ before.deliveries, claims key now before r

theorem Claimed.mono {i : ι} {key : String × String × String} {lease : String} {l l' : List (Transactions.Entry ι Db Tx)}
    (h : Claimed i key lease l) : Claimed i key lease (l ++ l') := by
  obtain ⟨now, before, hm, hc⟩ := h
  exact ⟨now, before, List.mem_append_left _ hm, hc⟩

variable [Tokens] (calls : ι → Call)

/-- What the rows and the log say about each other. -/
structure History (d : Db) (l : List (Transactions.Entry ι Db Tx)) : Prop where
  outbox : Outbox d
  confirmed : ∀ e ∈ l, ∀ p, e.tx = .confirm p → p.event ∈ d.events
  once : l.Pairwise fun e f => ∀ p q, e.tx = .confirm p → f.tx = .confirm q → p.ssoId ≠ q.ssoId
  drawn : ∀ e ∈ l, ∀ key now lease, e.tx = .claim key now lease → (calls e.caller).drew lease ∧ now ≤ e.before.clock
  /-- A lease was claimed. -/
  held : ∀ r ∈ d.deliveries, ∀ lease, r.state.lease = some lease → ∃ i, Claimed i r.key lease l
  settled : ∀ e ∈ l, ∀ p, e.tx = .settle p → Claimed e.caller p.key p.lease l
  sent : ∀ s ∈ d.sent, s.jti = jti s.key ∧ ∃ i, Claimed i s.key s.lease l

def delivering : Discipline ι Db Tx where
  inv := History calls
  sent i tx d l :=
    match tx with
    | .claim _ now lease => now ≤ d.clock ∧ (calls i).drew lease
    | .settle p => Claimed i p.key p.lease l
    | .send _ => False
    | _ => True
  noted i tx _ l :=
    match tx with
    | .send s => s.jti = jti s.key ∧ Claimed i s.key s.lease l
    | _ => False

variable {calls}

theorem History.drift {l : List (Transactions.Entry ι Db Tx)} (h : History calls d l) (hd : Logout.outbox.drift d d') :
    History calls d' l := by
  obtain ⟨-, -, he, hdel, hsent⟩ := id hd
  exact ⟨h.outbox.drift hd, he ▸ h.confirmed, h.once, h.drawn, hdel ▸ h.held, h.settled, hsent ▸ h.sent⟩

/-- A logged transaction that confirms nothing and leaves the events keeps the history of the confirmations. -/
theorem History.append {l : List (Transactions.Entry ι Db Tx)} (h : History calls d l) {i : ι} {tx : Tx}
    (ho : Outbox d') (hn : ∀ p, tx ≠ .confirm p) (he : d'.events = d.events)
    (hdrawn : ∀ key now lease, tx = .claim key now lease → (calls i).drew lease ∧ now ≤ d.clock)
    (hheld : ∀ r ∈ d'.deliveries, ∀ lease, r.state.lease = some lease →
      (∃ o ∈ d.deliveries, o.key = r.key ∧ o.state.lease = some lease) ∨ Claimed i r.key lease (l ++ [⟨i, tx, d⟩]))
    (hsettled : ∀ p, tx = .settle p → Claimed i p.key p.lease l)
    (hsent : ∀ s ∈ d'.sent, s ∈ d.sent ∨ (s.jti = jti s.key ∧ Claimed i s.key s.lease l)) :
    History calls d' (l ++ [⟨i, tx, d⟩]) := by
  refine ⟨ho, ?_, ?_, ?_, ?_, ?_, ?_⟩
  · intro e hm p hp
    rw [he]
    rcases List.mem_append.mp hm with hm | hm
    · exact h.confirmed e hm p hp
    · obtain rfl := List.mem_singleton.mp hm
      exact absurd hp (hn p)
  · refine List.pairwise_append.mpr ⟨h.once, List.pairwise_singleton _ _, fun e _ f hf p q _ hq => ?_⟩
    obtain rfl := List.mem_singleton.mp hf
    exact absurd hq (hn q)
  · intro e hm key now lease ht
    rcases List.mem_append.mp hm with hm | hm
    · exact h.drawn e hm key now lease ht
    · obtain rfl := List.mem_singleton.mp hm
      exact hdrawn key now lease ht
  · intro r hr lease hl
    rcases hheld r hr lease hl with ⟨o, ho, hk, hol⟩ | hc
    · obtain ⟨j, hj⟩ := h.held o ho lease hol
      exact ⟨j, hk ▸ hj.mono⟩
    · exact ⟨i, hc⟩
  · intro e hm p hp
    rcases List.mem_append.mp hm with hm | hm
    · exact (h.settled e hm p hp).mono
    · obtain rfl := List.mem_singleton.mp hm
      exact (hsettled p hp).mono
  · intro s hs
    rcases hsent s hs with hs | ⟨hj, hc⟩
    · obtain ⟨hj, k, hk⟩ := h.sent s hs
      exact ⟨hj, k, hk.mono⟩
    · exact ⟨hj, i, hc.mono⟩

theorem History.confirm {l : List (Transactions.Entry ι Db Tx)} (h : History calls d l) {i : ι} {p : Confirm}
    (hr : p.Revokes d d') : History calls d' (l ++ [⟨i, .confirm p, d⟩]) := by
  refine ⟨hr.outbox h.outbox, ?_, ?_, ?_, ?_, ?_, ?_⟩
  · intro e hm q hq
    rw [hr.events]
    rcases List.mem_append.mp hm with hm | hm
    · exact List.mem_append_left _ (h.confirmed e hm q hq)
    · obtain rfl := List.mem_singleton.mp hm
      cases hq
      exact List.mem_append_right _ List.mem_cons_self
  · refine List.pairwise_append.mpr ⟨h.once, List.pairwise_singleton _ _, fun e he f hf q q' hq hq' => ?_⟩
    obtain rfl := List.mem_singleton.mp hf
    cases hq'
    exact hr.first _ (h.confirmed e he q hq)
  · intro e hm key now lease ht
    rcases List.mem_append.mp hm with hm | hm
    · exact h.drawn e hm key now lease ht
    · obtain rfl := List.mem_singleton.mp hm
      cases ht
  · intro r hmem lease hl
    rw [hr.deliveries] at hmem
    rcases List.mem_append.mp hmem with hmem | hmem
    · obtain ⟨j, hj⟩ := h.held r hmem lease hl
      exact ⟨j, hj.mono⟩
    · rw [(Confirm.rows_pending hmem).1] at hl
      cases hl
  · intro e hm q hq
    rcases List.mem_append.mp hm with hm | hm
    · exact (h.settled e hm q hq).mono
    · obtain rfl := List.mem_singleton.mp hm
      cases hq
  · intro s hs
    rw [hr.sent] at hs
    obtain ⟨hj, k, hk⟩ := h.sent s hs
    exact ⟨hj, k, hk.mono⟩

theorem history_step {l : List (Transactions.Entry ι Db Tx)} (h : History calls d l) {i : ι} {tx : Tx}
    (hs : (delivering calls).sent i tx d l ∨ (delivering calls).noted i tx d l) (hr : tx.run d = some d') :
    History calls d' (l ++ [⟨i, tx, d⟩]) := by
  cases tx with
  | confirm p => exact h.confirm (Confirm.run_revokes hr)
  | expire now event =>
    cases hr
    have ho : Outbox (expire now event d) :=
      h.outbox.unleased (Nat.le_refl _) h.outbox.clientSessions rfl rfl (fun _ => rfl) fun _ => rfl
    refine h.append ho (fun _ he => by cases he) rfl (fun _ _ _ he => by cases he) ?_ (fun _ he => by cases he) fun s hs => .inl hs
    intro r hmem lease hl
    obtain ⟨o, hmo, ⟨-, rfl⟩ | ⟨-, rfl⟩⟩ := mem_update.mp hmem
    · cases hl
    · exact .inl ⟨r, hmo, rfl, hl⟩
  | claim key now lease =>
    obtain ⟨hnow, hdrew⟩ := hs.resolve_right id
    cases hr
    refine h.append (h.outbox.claim lease hnow) (fun _ he => by cases he) rfl ?_ ?_ (fun _ he => by cases he) fun s hs => .inl hs
    · intro _ _ _ he
      cases he
      exact ⟨hdrew, hnow⟩
    · intro r hmem x hl
      obtain ⟨o, hmo, ⟨hc, rfl⟩ | ⟨-, rfl⟩⟩ := mem_update.mp hmem
      · cases hl
        have hkey : key = o.key := hc.1.symm
        subst hkey
        exact .inr ⟨now, d, List.mem_append_right _ List.mem_cons_self, hnow, o, hmo, hc⟩
      · exact .inl ⟨r, hmo, rfl, hl⟩
  | settle p =>
    have hclaimed : Claimed i p.key p.lease l := hs.resolve_right id
    cases hr
    have ho : Outbox (p.run d) :=
      h.outbox.unleased (Nat.le_refl _) h.outbox.clientSessions rfl rfl (fun _ => rfl) fun _ => p.unleased
    refine h.append ho (fun _ he => by cases he) rfl (fun _ _ _ he => by cases he) ?_ ?_ fun s hs => .inl hs
    · intro r hmem lease hl
      obtain ⟨o, hmo, ⟨-, rfl⟩ | ⟨-, rfl⟩⟩ := mem_update.mp hmem
      · rw [p.unleased] at hl
        cases hl
      · exact .inl ⟨r, hmo, rfl, hl⟩
    · intro _ he
      cases he
      exact hclaimed
  | send s =>
    obtain ⟨hj, hc⟩ := hs.resolve_left id
    cases hr
    have ho : Outbox { d with sent := d.sent ++ [s] } := ⟨h.outbox.clientSessions, h.outbox.events, h.outbox.sessions,
      h.outbox.deliveries, h.outbox.few, h.outbox.alone⟩
    refine h.append ho (fun _ he => by cases he) rfl (fun _ _ _ he => by cases he) (fun r hmem x hl => .inl ⟨r, hmem, rfl, hl⟩)
      (fun _ he => by cases he) fun x hx => ?_
    rcases mem_snoc.mp hx with hx | rfl
    · exact .inl hx
    · exact .inr ⟨hj, hc⟩

theorem kept_claimed (i : ι) (key : String × String × String) (lease : String) :
    Kept Logout.outbox (delivering calls) fun _ l => Claimed i key lease l :=
  ⟨fun _ _ _ _ _ _ _ _ h => h.mono, fun _ _ _ _ _ h => h⟩

theorem kept_clock (now : Nat) : Kept (ι := ι) Logout.outbox (delivering calls) fun d _ => now ≤ d.clock :=
  ⟨fun _ _ _ _ _ _ _ hr h => (Tx.clock hr).symm ▸ h, fun _ _ _ _ hd h => Nat.le_trans h hd.1⟩

theorem delivering_keeps : Keeps Logout.outbox (delivering calls) := by
  refine ⟨⟨fun i tx d d' l h hs hr _ => history_step h hs hr, fun d d' l h hd _ => h.drift hd⟩, fun i tx => ?_⟩
  cases tx with
  | confirm p => exact .const True
  | expire now event => exact .const True
  | claim key now lease => exact (kept_clock now).and (.const _)
  | settle p => exact kept_claimed i p.key p.lease
  | send s => exact .const False

/-! ## The programs -/

variable {i : ι}

/-- A reading of the clock is not ahead of it. -/
theorem gives_clock {F : Shared ι Db Tx → Prop} (hF : Stable (world (ε := Failure) Logout.outbox) (contract Logout.outbox (delivering calls)) i F) :
    Ensures (world Logout.outbox) (contract Logout.outbox (delivering calls)) i F (read : Route Db)
      fun d s => F s ∧ d.clock ≤ s.db.clock :=
  spec_read hF (R := fun d d' _ => d.clock ≤ d'.clock) (fun d => kept_clock d.clock) fun _ _ _ => Nat.le_refl _

/-- The rows that are claimed are leased to the caller. -/
theorem gives_claimRows {draws : Nat → String} (hdrew : ∀ n, (calls i).drew (draws n)) (n : Nat) (rows : List Due) :
    Ensures (world Logout.outbox) (contract Logout.outbox (delivering calls)) i (fun _ => True) (claimRows draws n rows)
      fun cs s => ∀ c ∈ cs, Claimed i c.1.row.key c.2 s.log := by
  induction rows generalizing n with
  | nil => exact .pure fun _ _ _ c hc => by cases hc
  | cons due rest ih =>
    refine (gives_clock (.const True)).bind fun d => ?_
    have hclaim : Ensures (world Logout.outbox) (contract Logout.outbox (delivering calls)) i (fun s => True ∧ d.clock ≤ s.db.clock)
        (perform (.claim due.row.key d.clock (draws n)) : Route Db)
        fun before s => ⟨i, .claim due.row.key d.clock (draws n), before⟩ ∈ s.log :=
      spec_perform delivering_keeps fun s _ hs => ⟨hs.2, hdrew n⟩
    refine hclaim.bind fun before => ?_
    have hkept : Lasting (world (ε := Failure) Logout.outbox) (contract Logout.outbox (delivering calls))
        fun s => ⟨i, .claim due.row.key d.clock (draws n), before⟩ ∈ s.log :=
      (Kept.logged (⟨i, .claim due.row.key d.clock (draws n), before⟩ : Transactions.Entry ι Db Tx)).lasting
    refine (((ih (n + 1)).frame hkept).weaken fun _ _ h => ⟨trivial, h⟩).bind fun cs => .pure fun s hs h c hc => ?_
    by_cases hany : ∃ r ∈ before.deliveries, claims due.row.key d.clock before r
    · rw [if_pos hany] at hc
      rcases List.mem_cons.mp hc with rfl | hc
      · exact ⟨d.clock, before, h.2, (hs.1.drawn _ h.2 _ _ _ rfl).2, hany⟩
      · exact h.1 c hc
    · rw [if_neg hany] at hc
      exact h.1 c hc

/-- What is sent and settled for a claimed row keeps the discipline, whatever else its run does. -/
theorem safe_deliverClaimed (w : Worker) (due : Due) (lease : String) :
    Safe (world Logout.outbox) (contract Logout.outbox (delivering calls)) i (fun s => Claimed i due.row.key lease s.log)
      (deliverClaimed w due lease).run := by
  have hc : Kept Logout.outbox (delivering calls) fun _ l => Claimed i due.row.key lease l := kept_claimed i due.row.key lease
  have hend : ∀ status, Safe (world Logout.outbox) (contract Logout.outbox (delivering calls)) i
      (fun s => Claimed i due.row.key lease s.log)
      (do let d ← read; commit (.settle (settlement due lease status d.clock)) : Route Unit).run := by
    intro status
    refine safe_read (R := fun _ l => Claimed i due.row.key lease l) (Q := fun _ _ l => Claimed i due.row.key lease l)
      (fun _ => hc) (fun _ _ _ h => h) fun d => ?_
    have hsettle : ∀ db l, (delivering calls).inv db l → Claimed i due.row.key lease l →
        (delivering calls).sent i (.settle (settlement due lease status d.clock)) db l := by
      intro db l _ h
      unfold settlement
      dsimp only
      split
      · exact h
      · split <;> exact h
    have hlast := safe_commit (R := fun _ l => Claimed i due.row.key lease l) (g := fun _ => (pure () : Route Unit))
      delivering_keeps hc hsettle (.ret _)
    rwa [bind_pure] at hlast
  unfold deliverClaimed
  refine safe_read (R := fun _ l => Claimed i due.row.key lease l) (Q := fun _ _ l => Claimed i due.row.key lease l)
    (fun _ => hc) (fun _ _ _ h => h) fun d => ?_
  unfold deliver
  by_cases hdest : Tokens.destination due.row.logoutUri = false
  · rw [if_pos hdest, pure_bind]
    exact hend none
  · rw [if_neg hdest]
    cases Tokens.sign w.issuer due.row.clientId due.row.sub due.row.sid (jti due.row.key) d.clock (d.clock + 300) with
    | none =>
      dsimp only
      rw [pure_bind]
      exact hend none
    | some token =>
      dsimp only
      rw [bind_assoc]
      refine safe_note (R := fun _ l => Claimed i due.row.key lease l) delivering_keeps hc (fun _ _ _ h => ⟨rfl, h⟩) ?_
      rw [pure_bind]
      exact hend _

/-- A commit that everybody may send. -/
theorem gives_commit {tx : Tx} (h : ∀ d l, (delivering calls).sent i tx d l) :
    Ensures (world Logout.outbox) (contract Logout.outbox (delivering calls)) i (fun _ => True) (commit tx : Route Unit)
      fun _ _ => True := by
  have hcommit : Ensures (world Logout.outbox) (contract Logout.outbox (delivering calls)) i (fun _ => True)
      (commit tx : Route Unit) fun _ s => Applied i tx s.log := spec_commit delivering_keeps fun s _ _ => h s.db s.log
  exact hcommit.post fun _ _ _ _ => trivial

theorem gives_run {w : Worker} (hw : ∀ n m, (calls i).drew (w.draws n m)) (event : Option String) (n : Nat) :
    Ensures (world Logout.outbox) (contract Logout.outbox (delivering calls)) i (fun _ => True) (run w event n)
      fun _ _ => True := by
  unfold run
  refine spec_any.bind fun d => (gives_commit (by intro _ _; trivial)).bind fun _ => spec_any.bind fun now => spec_any.bind fun d => ?_
  dsimp only
  by_cases hrows : page d now.clock event = []
  · rw [if_pos hrows]
    exact .pure fun _ _ _ => trivial
  rw [if_neg hrows]
  refine spec_any.bind fun d' => (Vault.gives_fails _ _).bind fun _ => ?_
  refine ((gives_claimRows (hw n) 0 (page d now.clock event)).weaken fun _ _ _ => trivial).bind fun claimed => ?_
  have hsafe : SafeFrom (world Logout.outbox) (contract Logout.outbox (delivering calls)) i
      (claimed.map fun c s => Claimed i c.1.row.key c.2 s.log) (claimed.map fun c => (deliverClaimed w c.1 c.2).run) := by
    refine List.forall₂_map_left_iff.mpr (List.forall₂_map_right_iff.mpr (List.forall₂_same.mpr fun c _ => ?_))
    exact ⟨(kept_claimed i c.1.row.key c.2).lasting, safe_deliverClaimed w c.1 c.2⟩
  have hpre : ∀ s, (contract Logout.outbox (delivering calls)).inv s → (∀ c ∈ claimed, Claimed i c.1.row.key c.2 s.log) →
      ∀ P ∈ claimed.map (fun c s => Claimed i c.1.row.key c.2 s.log), P s := by
    intro s _ hc P hP
    obtain ⟨c, hm, rfl⟩ := List.mem_map.mp hP
    exact hc c hm
  have hjoin := Ensures.lift (ε := Failure) ((Valid.join (w.schedule n) hsafe).weaken hpre)
  refine hjoin.bind fun results => (Vault.gives_fails _ _).bind fun _ => ?_
  exact (spec_any.weaken fun _ _ _ => trivial).bind fun now' => spec_any.bind fun d'' => .pure fun _ _ _ => trivial

theorem gives_runDue {w : Worker} (hw : ∀ n m, (calls i).drew (w.draws n m)) (k n : Nat) :
    Ensures (world Logout.outbox) (contract Logout.outbox (delivering calls)) i (fun _ => True) (runDue w k n)
      fun _ _ => True := by
  induction k generalizing n with
  | zero => exact .pure fun _ _ _ => trivial
  | succ k ih =>
    refine (gives_run hw none n).bind fun summary => ?_
    by_cases hend : summary.claimed = 0 ∨ summary.moreDue = false
    · rw [if_pos hend]
      exact .pure fun _ _ _ => trivial
    · rw [if_neg hend]
      exact ih (n + 1)

theorem gives_queueConsumer {w : Worker} (hw : ∀ n m, (calls i).drew (w.draws n m)) (n : Nat) (events : List String) :
    Ensures (world Logout.outbox) (contract Logout.outbox (delivering calls)) i (fun _ => True) (queueConsumer w n events)
      fun _ _ => True := by
  induction events generalizing n with
  | nil => exact .pure fun _ _ _ => trivial
  | cons event rest ih =>
    unfold queueConsumer
    by_cases hvalid : Tokens.validTx event = true
    · rw [if_pos hvalid]
      exact (gives_run hw (some event) n).attempt.bind fun _ => (ih (n + 1)).weaken fun _ _ _ => trivial
    · rw [if_neg hvalid]
      exact ih (n + 1)

theorem gives_confirm (csrf : String) (csrfCookie ssoCookie : Option String) (eventId : String) :
    Ensures (world Logout.outbox) (contract Logout.outbox (delivering calls)) i (fun _ => True)
      (confirm csrf csrfCookie ssoCookie eventId) fun _ _ => True := by
  unfold confirm
  refine (Vault.gives_fails _ _).andThen fun _ _ => (Vault.gives_demand _ _).andThen fun csrfCookie _ => ?_
  refine (Vault.gives_demand _ _).andThen fun ssoCookie _ => (Vault.gives_fails _ _).andThen fun _ _ => ?_
  refine spec_any.bind fun now => spec_any.bind fun d => (Vault.gives_demand _ _).andThen fun t _ => ?_
  refine (gives_commit (by intro _ _; trivial)).attempt.bind fun result => ?_
  exact ((Vault.gives_fails _ _).weaken fun _ _ _ => trivial).post fun _ _ _ _ => trivial

theorem program_valid (i : ι) :
    Ensures (world Logout.outbox) (contract Logout.outbox (delivering calls)) i (fun _ => True) (calls i).program
      fun _ _ => True := by
  unfold Call.program
  cases hcall : calls i with
  | confirm csrf csrfCookie ssoCookie eventId => exact gives_confirm _ _ _ _
  | queue w events =>
    exact gives_queueConsumer (fun n m => by rw [hcall]; exact ⟨n, m, rfl⟩) 0 events
  | cron w =>
    exact gives_runDue (fun n m => by rw [hcall]; exact ⟨n, m, rfl⟩) 8 0

end

end Mikaki.Logout
