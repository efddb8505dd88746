import Mikaki.Logout.OutboxSound

/-!
# The outbox over runs

What a step does to an event and to a delivery, what stays for good, and a run
in which the clock passes a deadline between its reading and the claim.
-/

namespace Mikaki.Logout

open Concurrent Rows Transactions
open Mikaki.Vault (Failure)

variable {d d' : Db}

/-! ## One step -/

section
variable {ι : Type}

/-- What a transaction of a caller does to a delivery. -/
inductive RowMoves (i : ι) (tx : Tx) (d : Db) (l : List (Transactions.Entry ι Db Tx)) (r : DeliveryRow) : DeliveryRow → Prop
  | stays : RowMoves i tx d l r r
  /-- On a clock before the deadline, with one more attempt. -/
  | claimed (now : Nat) (lease : String) (htx : tx = .claim r.key now lease) (hnow : now ≤ d.clock)
      (hc : claims r.key now d r) :
      RowMoves i tx d l r { r with state := .leased lease (now + leaseSeconds), attempts := r.attempts + 1 }
  /-- By the one caller that holds the lease. -/
  | settled (p : Settlement) (htx : tx = .settle p) (hlease : r.state.lease = some p.lease)
      (hheld : ∀ j, Claimed j r.key p.lease l ↔ j = i) :
      RowMoves i tx d l r
        { r with state := p.state, nextAt := p.nextAt, lastStatus := p.status, finishedAt := p.finishedAt }
  | expired (now : Nat) (event : Option String) (htx : tx = .expire now event) (hopen : r.state.isOpen = true)
      (hdead : ∃ e ∈ d.events, e.eventId = r.eventId ∧ e.deadline ≤ now) :
      RowMoves i tx d l r { r with state := .expired, finishedAt := some now }

theorem RowMoves.key {i : ι} {tx : Tx} {l : List (Transactions.Entry ι Db Tx)} {r r' : DeliveryRow}
    (h : RowMoves i tx d l r r') : r'.key = r.key := by
  cases h <;> rfl

variable [Tokens] {calls : ι → Call}

theorem History.claimed_drew {l : List (Transactions.Entry ι Db Tx)} (h : History calls d l) {i : ι}
    {key : String × String × String} {lease : String} (hc : Claimed i key lease l) : (calls i).drew lease := by
  obtain ⟨now, before, hm, -⟩ := hc
  exact (h.drawn _ hm key now lease rfl).1

/-- Every delivery moves as the transaction says. -/
theorem row_moves (hdraw : ∀ i j lease, (calls i).drew lease → (calls j).drew lease → i = j)
    {l : List (Transactions.Entry ι Db Tx)} (h : History calls d l) {i : ι} {tx : Tx}
    (h' : History calls d' (l ++ [⟨i, tx, d⟩])) (hr : tx.run d = some d') {r : DeliveryRow} (hm : r ∈ d.deliveries) :
    ∃ r' ∈ d'.deliveries, RowMoves i tx d l r r' := by
  cases tx with
  | confirm p =>
    refine ⟨r, ?_, .stays⟩
    rw [(Confirm.run_revokes hr).deliveries]
    exact List.mem_append_left _ hm
  | expire now event =>
    cases hr
    by_cases hs : r.state.isOpen = true ∧ (∀ e, event = some e → r.eventId = e) ∧
        ∃ e ∈ d.events, e.eventId = r.eventId ∧ e.deadline ≤ now
    · exact ⟨_, mem_update.mpr ⟨r, hm, .inl ⟨hs, rfl⟩⟩, .expired now event rfl hs.1 hs.2.2⟩
    · exact ⟨r, mem_update.mpr ⟨r, hm, .inr ⟨hs, rfl⟩⟩, .stays⟩
  | claim key now lease =>
    have hnow : now ≤ d.clock := (h'.drawn _ (List.mem_append_right _ List.mem_cons_self) key now lease rfl).2
    cases hr
    by_cases hs : claims key now d r
    · obtain rfl : r.key = key := hs.1
      exact ⟨_, mem_update.mpr ⟨r, hm, .inl ⟨hs, rfl⟩⟩, .claimed now lease rfl hnow hs⟩
    · exact ⟨r, mem_update.mpr ⟨r, hm, .inr ⟨hs, rfl⟩⟩, .stays⟩
  | settle p =>
    have hclaimed : Claimed i p.key p.lease (l ++ [⟨i, .settle p, d⟩]) :=
      h'.settled _ (List.mem_append_right _ List.mem_cons_self) p rfl
    cases hr
    by_cases hs : p.selects r
    · refine ⟨_, mem_update.mpr ⟨r, hm, .inl ⟨hs, rfl⟩⟩, .settled p rfl hs.2 fun j => ?_⟩
      -- The secret of the lease tells who drew it.
      have hmine := h'.claimed_drew hclaimed
      obtain ⟨k, hk⟩ := h.held r hm p.lease hs.2
      constructor
      · intro hj
        exact hdraw j i p.lease (h.claimed_drew hj) hmine
      · intro hj
        rw [hj, ← hdraw k i p.lease (h.claimed_drew hk) hmine]
        exact hk
    · exact ⟨r, mem_update.mpr ⟨r, hm, .inr ⟨hs, rfl⟩⟩, .stays⟩
  | send s =>
    cases hr
    exact ⟨r, hm, .stays⟩

omit [Tokens] in
/-- Deliveries are made by confirmations only. -/
theorem row_made {tx : Tx} (hr : tx.run d = some d') {r : DeliveryRow} (hm : r ∈ d'.deliveries) :
    (∃ o ∈ d.deliveries, o.key = r.key) ∨ ∃ p, tx = .confirm p ∧ r ∈ p.rows d := by
  have hupdate : ∀ {q : DeliveryRow → Prop} [DecidablePred q] {f : DeliveryRow → DeliveryRow},
      d'.deliveries = update q f d.deliveries → (∀ a, (f a).key = a.key) → ∃ o ∈ d.deliveries, o.key = r.key := by
    intro q _ f hd hf
    rw [hd] at hm
    obtain ⟨o, ho, ⟨-, rfl⟩ | ⟨-, rfl⟩⟩ := mem_update.mp hm
    · exact ⟨o, ho, (hf o).symm⟩
    · exact ⟨r, ho, rfl⟩
  cases tx with
  | confirm p =>
    rw [(Confirm.run_revokes hr).deliveries] at hm
    rcases List.mem_append.mp hm with hm | hm
    · exact .inl ⟨r, hm, rfl⟩
    · exact .inr ⟨p, rfl, hm⟩
  | expire | claim | settle => cases hr; exact .inl (hupdate rfl fun _ => rfl)
  | send s => cases hr; exact .inl ⟨r, hm, rfl⟩

omit [Tokens] in
theorem events_eq {tx : Tx} (hr : tx.run d = some d') : (∃ p, tx = .confirm p ∧ p.Revokes d d') ∨ d'.events = d.events := by
  cases tx with
  | confirm p => exact .inl ⟨p, rfl, Confirm.run_revokes hr⟩
  | expire | claim | settle | send => cases hr; exact .inr rfl

end

/-! ## What stays -/

/-- Deliveries stay, and what is delivered, failed or expired stays as it is. -/
def Later (d d' : Db) : Prop := ∀ r ∈ d.deliveries, ∃ r' ∈ d'.deliveries, r'.key = r.key ∧ (r.state.isOpen = false → r' = r)

theorem Later.refl (d : Db) : Later d d := fun r hr => ⟨r, hr, rfl, fun _ => rfl⟩

theorem Later.trans {a b c : Db} (h : Later a b) (h' : Later b c) : Later a c := by
  intro r hr
  obtain ⟨s, hs, hk, he⟩ := h r hr
  obtain ⟨t, ht, hk', he'⟩ := h' s hs
  refine ⟨t, ht, hk'.trans hk, fun hclosed => ?_⟩
  have hsr := he hclosed
  exact (he' (hsr ▸ hclosed)).trans hsr

theorem Later.update {q : DeliveryRow → Prop} [DecidablePred q] {f : DeliveryRow → DeliveryRow}
    (hd : d'.deliveries = update q f d.deliveries) (hf : ∀ a, (f a).key = a.key) (hq : ∀ a, q a → a.state.isOpen = true) :
    Later d d' := by
  intro r hr
  rw [hd]
  by_cases h : q r
  · exact ⟨f r, mem_update.mpr ⟨r, hr, .inl ⟨h, rfl⟩⟩, hf r, fun hc => absurd (hq r h) (by rw [hc]; simp)⟩
  · exact ⟨r, mem_update.mpr ⟨r, hr, .inr ⟨h, rfl⟩⟩, rfl, fun _ => rfl⟩

theorem Tx.later {tx : Tx} (hr : tx.run d = some d') : Later d d' := by
  cases tx with
  | confirm p =>
    intro r hm
    refine ⟨r, ?_, rfl, fun _ => rfl⟩
    rw [(Confirm.run_revokes hr).deliveries]
    exact List.mem_append_left _ hm
  | expire now event =>
    cases hr
    exact .update rfl (fun _ => rfl) fun _ h => h.1
  | claim key now lease =>
    cases hr
    refine .update rfl (fun _ => rfl) fun a h => ?_
    have hfree := h.2.2.1
    cases hs : a.state with
    | pending | leased => rfl
    | delivered | failed | expired => rw [hs] at hfree; cases hfree
  | settle p =>
    cases hr
    refine .update rfl (fun _ => rfl) fun a h => ?_
    have hlease := h.2
    cases hs : a.state with
    | pending | leased => rfl
    | delivered | failed | expired => rw [hs] at hlease; cases hlease
  | send s =>
    cases hr
    exact .refl d

/-! ## Every run -/

/-- Confirmations, queue batches and cron runs of any number of callers, each of which draws its own secrets. -/
theorem logout_outbox [Tokens] {ι : Type} [DecidableEq ι] {calls : ι → Call}
    (hdraw : ∀ i j lease, (calls i).drew lease → (calls j).drew lease → i = j) {d : Db}
    (hd : d.events = [] ∧ d.deliveries = [] ∧ d.sent = [] ∧ Unique ClientSessionRow.key d.clientSessions)
    {c : Config ι (Shared ι Db Tx) (Transactions.Request Failure Db Tx) Transactions.Request.Reply (Except Failure Unit)}
    (hr : Runs outbox (fun i p => p = ((calls i).program).run) d c) :
    -- A session is revoked with at most one event.
    Unique EventRow.ssoId c.state.db.events ∧
    (c.state.log.Pairwise fun e f => ∀ p q, e.tx = .confirm p → f.tx = .confirm q → p.ssoId ≠ q.ssoId) ∧
    -- What a step does.
    (∀ c', Step (world outbox) (fun i p => p = ((calls i).program).run) c c' →
      (c'.state.log = c.state.log ∧ c'.state.db.events = c.state.db.events ∧ c'.state.db.deliveries = c.state.db.deliveries) ∨
      ∃ i tx, c'.state.log = c.state.log ++ [⟨i, tx, c.state.db⟩] ∧
        -- Only a confirmation makes an event: it revokes a live session, with a row for each client that is to be told.
        ((∃ p, tx = .confirm p ∧ p.Revokes c.state.db c'.state.db ∧
            (∀ cs ∈ c.state.db.clientSessions, p.told c.state.db cs → ∀ b, Confirm.uri c.state.db cs.clientId = some b →
              p.delivery cs b ∈ c'.state.db.deliveries) ∧
            ∀ r ∈ p.rows c.state.db, ∃ cs ∈ c.state.db.clientSessions, p.told c.state.db cs ∧
              ∃ b ∈ c.state.db.uris, b.clientId = cs.clientId ∧ b.active = true ∧ r = p.delivery cs b) ∨
          c'.state.db.events = c.state.db.events) ∧
        (∀ r ∈ c'.state.db.deliveries, (∃ o ∈ c.state.db.deliveries, o.key = r.key) ∨
          ∃ p, tx = .confirm p ∧ r ∈ p.rows c.state.db) ∧
        (∀ r ∈ c.state.db.deliveries, ∃ r' ∈ c'.state.db.deliveries, RowMoves i tx c.state.db c.state.log r r') ∧
        -- A claim of a row that may be claimed counts one attempt, and a late settlement changes nothing.
        (∀ key now lease, tx = .claim key now lease → ∀ r ∈ c.state.db.deliveries, claims key now c.state.db r →
          { r with state := .leased lease (now + leaseSeconds), attempts := r.attempts + 1 } ∈ c'.state.db.deliveries) ∧
        (∀ p, tx = .settle p → (∀ r ∈ c.state.db.deliveries, r.key = p.key → r.state.lease ≠ some p.lease) →
          c'.state.db.deliveries = c.state.db.deliveries)) ∧
    Unique DeliveryRow.key c.state.db.deliveries ∧
    -- Delivered, failed and expired are for good.
    (∀ c', Steps (world outbox) (fun i p => p = ((calls i).program).run) c c' → Later c.state.db c'.state.db) ∧
    -- At most two leases are unexpired, and one of a client.
    (c.state.db.busy c.state.db.clock).length ≤ 2 ∧
    (∀ client, (c.state.db.busyFor client c.state.db.clock).length ≤ 1) ∧
    -- The clock that a claim has read is before the deadline and not ahead of the database's.
    (∀ e ∈ c.state.log, ∀ key now lease, e.tx = .claim key now lease → now ≤ e.before.clock ∧
      ∀ r, claims key now e.before r → ∃ ev ∈ e.before.events, ev.eventId = r.eventId ∧ now < ev.deadline) ∧
    -- Every token of a delivery has one identity, and was sent under a lease.
    ∀ s ∈ c.state.db.sent, s.jti = jti s.key ∧ ∃ i, Claimed i s.key s.lease c.state.log := by
  obtain ⟨he, hdel, hsent, hcs⟩ := hd
  have hstart : History calls d [] := by
    refine ⟨⟨hcs, he ▸ .nil, he ▸ .nil, hdel ▸ .nil, ?_, ?_⟩, ?_, .nil, ?_, ?_, ?_, ?_⟩
    all_goals simp [hdel, hsent, Db.busy, Db.busyFor]
  have hentry : ∀ i p, p = ((calls i).program).run → Valid (world outbox) (contract outbox (delivering calls)) i
      (fun _ _ => True) ((contract outbox (delivering calls)).fresh i) p := by
    rintro i _ rfl
    exact Valid.post (Valid.weaken (program_valid i) fun _ _ _ => trivial) fun _ _ _ _ => trivial
  have hist : History calls c.state.db c.state.log := (Runs.good delivering_keeps hentry hstart hr).1.1
  refine ⟨hist.outbox.sessions, hist.once, ?_, hist.outbox.deliveries, ?_, hist.outbox.few, hist.outbox.alone, ?_, hist.sent⟩
  · intro c' hc
    have hist' : History calls c'.state.db c'.state.log := (Runs.good delivering_keeps hentry hstart (hr.tail hc)).1.1
    rcases step_db hc with ⟨hdb, hlog⟩ | ⟨⟨i, tx, before⟩, hlog, hbefore, hrun⟩ | ⟨⟨-, -, hev, hdel, -⟩, hlog⟩
    · rw [hdb]
      exact .inl ⟨hlog, rfl, rfl⟩
    · obtain rfl : before = c.state.db := hbefore
      refine .inr ⟨i, tx, hlog, ?_, fun r hm => row_made hrun hm,
        fun r hm => row_moves hdraw hist (hlog ▸ hist') hrun hm, ?_, ?_⟩
      · rcases events_eq hrun with ⟨p, rfl, hrev⟩ | hsame
        · refine .inl ⟨p, rfl, hrev, fun cs hcs ht b hb => ?_, fun r hm => ?_⟩
          · rw [hrev.deliveries]
            exact List.mem_append_right _ (Confirm.mem_rows.mpr ⟨cs, hcs, ht, b, hb, rfl⟩)
          · obtain ⟨cs, hcs, ht, b, hb, rfl⟩ := Confirm.mem_rows.mp hm
            have hprop := List.find?_some hb
            simp only [decide_eq_true_eq] at hprop
            exact ⟨cs, hcs, ht, b, List.mem_of_find?_eq_some hb, hprop.1, hprop.2, rfl⟩
        · exact .inr hsame
      · rintro key now lease rfl r hm hc
        rw [← Option.some.inj hrun]
        exact mem_update.mpr ⟨r, hm, .inl ⟨hc, rfl⟩⟩
      · rintro p rfl hnone
        rw [← Option.some.inj hrun]
        exact update_none fun r hm hs => hnone r hm hs.1 hs.2
    · exact .inl ⟨hlog, hev, hdel⟩
  · intro c' hc
    exact Runs.later (R := fun _ _ => True) (fun _ _ _ _ _ _ _ => trivial) (fun _ _ _ _ _ => trivial) trivial hr Later.refl
      Later.trans (fun _ _ _ _ _ hrun => Tx.later hrun) (fun a b hdrift r hm => ⟨r, hdrift.2.2.2.1 ▸ hm, rfl, fun _ => rfl⟩) hc
  · intro e hm key now lease ht
    refine ⟨(hist.drawn e hm key now lease ht).2, fun r hc => ?_⟩
    obtain ⟨ev, hev, hid, hdead⟩ := hc.2.2.2.1
    exact ⟨ev, hev, hid, hdead⟩

/-! ## A claim after its deadline -/

@[reducible] def Sample.tokens : Tokens :=
  { hash := id, validTx := fun _ => true, destination := fun _ => true, sign := fun _ _ _ _ _ _ _ => some "token" }

def Sample.event : String := String.ofList (List.replicate 43 'e')

def Sample.worker : Worker :=
  { issuer := "https://op.example", draws := fun _ _ => "lease", schedule := fun _ => [], answers := fun _ => some 200 }

/-- One session with one client that is to be told. -/
def Sample.db : Db :=
  { clock := 100, registered := true, sessions := [⟨"sso", 900, false⟩], clientSessions := [⟨"client", "sid", "sso", "sub", false⟩]
    clients := [⟨"client", true⟩], uris := [⟨"client", "https://client.example", true⟩]
    transactions := [⟨"csrf", "sso", "cookie", "", "", 200⟩], events := [], deliveries := [], sent := [] }

/-- A confirmation, a cron run, and requests that carry no cookie. -/
def Sample.call : Nat → Call
  | 0 => .confirm "csrf" (some "csrf") (some "cookie") Sample.event
  | 1 => .cron Sample.worker
  | _ => .confirm "" none none ""

/-- Between the clock that the claim reads and the claim, the client's session ends and the database passes the deadline. -/
def Sample.moves : List (Move Nat Failure Db Tx (Except Failure Unit)) :=
  let _ := Sample.tokens
  [.start 0 (Sample.call 0).program.run, .go 0, .go 0, .go 0,
    .start 1 (Sample.call 1).program.run, .go 1, .go 1, .go 1, .go 1, .go 1, .go 1,
    .drift fun d => { d with clock := max d.clock 172900, clientSessions := [] }, .go 1]

theorem Sample.drew {i : Nat} {lease : String} (h : (Sample.call i).drew lease) : i = 1 := by
  match i with
  | 0 => exact h.elim
  | 1 => rfl
  | _ + 2 => exact h.elim

/-- A claim of a delivery whose event's deadline has come. -/
def Overdue (e : Transactions.Entry Nat Db Tx) : Prop :=
  match e.tx with
  | .claim key now _ => ∃ r ∈ e.before.deliveries, claims key now e.before r ∧
      ∃ ev ∈ e.before.events, ev.eventId = r.eventId ∧ ev.deadline ≤ e.before.clock
  | _ => False

instance : DecidablePred Overdue := fun e => by unfold Overdue; cases e.tx <;> infer_instance

theorem Sample.played :
    (play outbox Failure.server Sample.moves (.initial (.initial Sample.db))).map
      (fun c => decide (∃ e ∈ c.state.log, Overdue e)) = some true := by
  decide +kernel

theorem Sample.reached :
    let _ := Sample.tokens
    ∃ c : Config Nat (Shared Nat Db Tx) (Transactions.Request Failure Db Tx) Transactions.Request.Reply (Except Failure Unit),
      Runs outbox (fun i p => p = (Sample.call i).program.run) Sample.db c ∧ ∃ e ∈ c.state.log, Overdue e := by
  intro _
  obtain ⟨c, hc, hd⟩ := Option.map_eq_some_iff.mp Sample.played
  refine ⟨c, play_steps (fun i p hm => ?_) (fun f hm d => ?_) hc, of_decide_eq_true hd⟩
  · simp [Sample.moves] at hm
    rcases hm with ⟨rfl, rfl⟩ | ⟨rfl, rfl⟩
    · rfl
    · rfl
  · simp [Sample.moves] at hm
    subst hm
    exact ⟨Nat.le_max_left _ _, .nil, rfl, rfl, rfl⟩

/-- The outbox is kept in the run that claims after the deadline. -/
theorem logout_outbox_overdue :
    let _ := Sample.tokens
    ∃ c : Config Nat (Shared Nat Db Tx) (Transactions.Request Failure Db Tx) Transactions.Request.Reply (Except Failure Unit),
      Runs outbox (fun i p => p = (Sample.call i).program.run) Sample.db c ∧ (∃ e ∈ c.state.log, Overdue e) ∧
        Unique EventRow.ssoId c.state.db.events ∧ (c.state.db.busy c.state.db.clock).length ≤ 2 := by
  intro _
  obtain ⟨c, hc, he⟩ := Sample.reached
  have hdraw : ∀ i j lease, (Sample.call i).drew lease → (Sample.call j).drew lease → i = j :=
    fun i j lease hi hj => (Sample.drew hi).trans (Sample.drew hj).symm
  have h := logout_outbox hdraw
    (d := Sample.db) ⟨rfl, rfl, rfl, List.pairwise_singleton _ _⟩ hc
  exact ⟨c, hc, he, h.1, h.2.2.2.2.2.1⟩

/-- A claim can happen at the deadline: its clock was read before. -/
theorem logout_outbox_late :
    ∃ (_ : Tokens)
      (c : Config Nat (Shared Nat Db Tx) (Transactions.Request Failure Db Tx) Transactions.Request.Reply (Except Failure Unit)),
      Runs outbox (fun i p => p = (Sample.call i).program.run) Sample.db c ∧ ∃ e ∈ c.state.log, Overdue e :=
  ⟨Sample.tokens, Sample.reached⟩

end Mikaki.Logout
