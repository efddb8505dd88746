import Mikaki.Enrollment.InvitationsSound

/-!
# Invitations over runs

What a step does to operations, invitations and jobs, and a run in which an
invitation expires between the clock that a claim has read and the claim.
-/

namespace Mikaki.Enrollment

open Concurrent Rows Transactions
open Mikaki.Vault (Failure)

variable {d d' : Db}

/-! ## One step -/

section
variable {ι : Type}

/-- Only a delivery of the caller has leased the job under this secret. -/
def HeldBy (i : ι) (job lease : String) (l : List (Transactions.Entry ι Db Tx)) : Prop :=
  ∀ j, (∃ tokenHash, Claimed j job lease tokenHash l) ↔ j = i

/-- What a transaction of a caller does to a job. -/
inductive JobMoves (i : ι) (tx : Tx) (d : Db) (l : List (Transactions.Entry ι Db Tx)) (m : MailRow) : MailRow → Prop
  | stays : JobMoves i tx d l m m
  /-- Where no lease is left on a clock that the database has reached. -/
  | claimed (now : Nat) (lease : String) (htx : tx = .claim m.id now lease) (hnow : now ≤ d.clock) (hc : claims m.id now d m) :
      JobMoves i tx d l m { m with state := .sending lease (now + 120), attempts := m.attempts + 1, lastAttemptAt := some now }
  /-- By the delivery that holds the lease. -/
  | settled (p : Settlement) (htx : tx = .settle p) (hlease : m.state.lease = some p.lease) (hheld : HeldBy i m.id p.lease l) :
      JobMoves i tx d l m (p.apply m)
  | requeued (p : Finish) (w : String) (htx : tx = .finish p) (hp : p.purpose = .resend w m.id) (hq : p.requeues w m.id d m) :
      JobMoves i tx d l m
        { m with state := .pending, attempts := 0, nextAttemptAt := p.now, lastAttemptAt := some p.now, messageId := none }
  /-- What it announces can not be used. -/
  | cancelled (hopen : m.state.isOpen = true) (hdead : m.expiresAt ≤ d.clock ∨ ¬d.current d.clock m) :
      JobMoves i tx d l m { m with state := .cancelled }
  /-- Its last lease has run out. -/
  | failed (hfree : m.state.free d.clock = true) (ha : m.attempts ≥ 5) : JobMoves i tx d l m { m with state := .failed }

variable [Profile] {calls : ι → Call} {draw : ι → Nat → String} {l : List (Transactions.Entry ι Db Tx)} {i : ι}

theorem History.claimed_drew (h : History calls draw d l) {job lease tokenHash : String} (hc : Claimed i job lease tokenHash l) :
    ∃ n, lease = draw i n := by
  obtain ⟨now, before, he, -⟩ := hc
  obtain ⟨l', -, hdrew, -⟩ := h.sends _ he
  exact hdrew

theorem History.heldBy (hdraw : ∀ i j m n, draw i m = draw j n → i = j) (h : History calls draw d l) {job lease tokenHash : String}
    (hc : Claimed i job lease tokenHash l) : HeldBy i job lease l := by
  intro j
  constructor
  · intro ⟨t, hj⟩
    obtain ⟨m, hm⟩ := h.claimed_drew hj
    obtain ⟨n, hn⟩ := h.claimed_drew hc
    exact hdraw j i m n (hm.symm.trans hn)
  · intro hj
    exact ⟨tokenHash, hj ▸ hc⟩

/-- Every job moves as the transaction says, or goes with its entry. -/
theorem job_moves (hdraw : ∀ i j m n, draw i m = draw j n → i = j) (h : History calls draw d l) {tx : Tx}
    (h' : History calls draw d' (l ++ [⟨i, tx, d⟩])) (hr : tx.run d = some d') {m : MailRow} (hm : m ∈ d.mail) :
    (∃ m' ∈ d'.mail, JobMoves i tx d l m m') ∨ ∀ w ∈ d'.waitlist, w.id ≠ m.waitlistId := by
  have hupdate : ∀ {q : MailRow → Prop} [DecidablePred q] {f : MailRow → MailRow}, d'.mail = update q f d.mail →
      (q m → JobMoves i tx d l m (f m)) → ∃ m' ∈ d'.mail, JobMoves i tx d l m m' := by
    intro q _ f hd hf
    rw [hd]
    by_cases hq : q m
    · exact ⟨f m, mem_update.mpr ⟨m, hm, .inl ⟨hq, rfl⟩⟩, hf hq⟩
    · exact ⟨m, mem_update.mpr ⟨m, hm, .inr ⟨hq, rfl⟩⟩, .stays⟩
  have hlast := h'.sends _ (List.mem_append_right _ List.mem_cons_self)
  cases tx with
  | finish p =>
    rcases (Finish.run_does hr).outcome with ⟨x, -, -, hby | ⟨id, previous, job, hrep⟩⟩ | ⟨id, job, hre⟩
    · exact .inl ⟨m, hby.mail ▸ hm, .stays⟩
    · refine .inl ⟨m, ?_, .stays⟩
      rw [hrep.mail]
      exact List.mem_append_left _ hm
    · refine .inl (hupdate hre.mail fun hq => ?_)
      obtain rfl : m.id = job := hq.1
      exact .requeued p id rfl hre.purpose hq
  | claim id now lease =>
    obtain ⟨l', -, -, hnow⟩ := hlast
    cases hr
    refine .inl (hupdate rfl fun hq => ?_)
    obtain rfl : m.id = id := hq.1
    exact .claimed now lease rfl hnow hq
  | settle p =>
    obtain ⟨l', hl', tokenHash, now, before, he, hc⟩ := hlast
    have hclaimed : Claimed i p.id p.lease tokenHash l := by
      refine ⟨now, before, ?_, hc⟩
      rcases List.mem_append.mp (hl'.subset he) with he | he
      · exact he
      · cases List.mem_singleton.mp he
    cases hr
    refine .inl (hupdate rfl fun hq => .settled p rfl hq.2 ?_)
    rw [hq.1]
    exact h.heldBy hdraw hclaimed
  | cancelObsolete =>
    cases hr
    refine .inl (hupdate rfl fun hq => .cancelled hq.1 ?_)
    rcases hq.2 with hk | hk
    · rw [h.kinds m hm] at hk
      cases hk
    · exact hk
  | failStuck =>
    cases hr
    exact .inl (hupdate rfl fun hq => .failed hq.2.2 hq.2.1)
  | sweep =>
    cases hr
    by_cases hgone : m.waitlistId ∈ ((d.waitlist.filter fun w => outdated d w).take 100).map EntryRow.id
    · refine .inr fun w hw he => ?_
      have hkept := (List.mem_filter.mp hw).2
      rw [he] at hkept
      simp only [decide_not, Bool.not_eq_true', decide_eq_false_iff_not] at hkept
      exact hkept hgone
    · by_cases hq : m.expiresAt ≤ d.clock ∧ m.state.isOpen = true
      · refine .inl ⟨{ m with state := .cancelled }, List.mem_filter.mpr ⟨mem_update.mpr ⟨m, hm, .inl ⟨hq, rfl⟩⟩, ?_⟩,
          .cancelled hq.2 (.inl hq.1)⟩
        exact decide_eq_true hgone
      · exact .inl ⟨m, List.mem_filter.mpr ⟨mem_update.mpr ⟨m, hm, .inr ⟨hq, rfl⟩⟩, decide_eq_true hgone⟩, .stays⟩
  | start row =>
    obtain ⟨-, rfl⟩ := Tx.start_some hr
    exact .inl ⟨m, hm, .stays⟩
  | enrol inviteHash now =>
    rw [enrol_some hr]
    exact .inl ⟨m, hm, .stays⟩
  | join entry maximum =>
    rcases join_some hr with rfl | ⟨-, rfl⟩
    · exact .inl ⟨m, hm, .stays⟩
    · exact .inl ⟨m, hm, .stays⟩
  | fail | send => cases hr; exact .inl ⟨m, hm, .stays⟩

omit [Profile] in
/-- Only a batch of `finish` consumes an operation. -/
theorem operation_moves {tx : Tx} (hr : tx.run d = some d') {o : OperationRow} (hm : o ∈ d.operations) :
    ∃ o' ∈ d'.operations, o.Later o' ∧ (o.consumed = false → o'.consumed = true → ∃ p, tx = .finish p ∧ p.selects o) := by
  cases tx with
  | finish p =>
    rw [(Finish.run_does hr).operations]
    by_cases hq : p.selects o
    · exact ⟨_, mem_update.mpr ⟨o, hm, .inl ⟨hq, rfl⟩⟩, ⟨rfl, rfl, rfl, rfl, rfl, rfl, rfl, fun _ => rfl⟩, fun _ _ => ⟨p, rfl, hq⟩⟩
    · exact ⟨o, mem_update.mpr ⟨o, hm, .inr ⟨hq, rfl⟩⟩, .refl o, fun hn hc => absurd (hn.symm.trans hc) Bool.false_ne_true⟩
  | fail operationId =>
    cases hr
    by_cases hq : o.operationId = operationId ∧ o.consumed = false ∧ o.failures < 5
    · exact ⟨_, mem_update.mpr ⟨o, hm, .inl ⟨hq, rfl⟩⟩, ⟨rfl, rfl, rfl, rfl, rfl, rfl, rfl, fun h => h⟩,
        fun hn hc => absurd (hn.symm.trans hc) Bool.false_ne_true⟩
    · exact ⟨o, mem_update.mpr ⟨o, hm, .inr ⟨hq, rfl⟩⟩, .refl o, fun hn hc => absurd (hn.symm.trans hc) Bool.false_ne_true⟩
  | start row =>
    obtain ⟨-, rfl⟩ := Tx.start_some hr
    exact ⟨o, List.mem_append_left _ hm, .refl o, fun hn hc => absurd (hn.symm.trans hc) Bool.false_ne_true⟩
  | enrol inviteHash now =>
    rw [enrol_some hr]
    exact ⟨o, hm, .refl o, fun hn hc => absurd (hn.symm.trans hc) Bool.false_ne_true⟩
  | join entry maximum =>
    rcases join_some hr with rfl | ⟨-, rfl⟩
    · exact ⟨o, hm, .refl o, fun hn hc => absurd (hn.symm.trans hc) Bool.false_ne_true⟩
    · exact ⟨o, hm, .refl o, fun hn hc => absurd (hn.symm.trans hc) Bool.false_ne_true⟩
  | _ => cases hr; exact ⟨o, hm, .refl o, fun hn hc => absurd (hn.symm.trans hc) Bool.false_ne_true⟩

/-- An operation is finished from the session that has started it, with an assertion for its challenge. -/
theorem History.finished (h : History calls draw d l) {p : Finish}
    (hs : Sends calls draw i d l (.finish p)) {o : OperationRow} (hm : o ∈ d.operations) (hq : p.selects o) :
    (calls i).session = some o.browserHash ∧ Asserted (calls i) o p.credentialId p.revision ∧
      ∃ e ∈ l, ∃ row, e.tx = .start row ∧ row.Later o ∧ (calls e.caller).session = some o.browserHash := by
  obtain ⟨hsession, o', ho', hid, hassert⟩ := hs
  obtain rfl := h.operationIds.eq ho' hm (hid.trans hq.1.symm)
  refine ⟨hsession.trans (congrArg some hq.2.2.2.1.symm), hassert, ?_⟩
  obtain ⟨e, he, row, htx, hl⟩ := h.started o' hm
  obtain ⟨l', -, hsends⟩ := h.sends e he
  rw [htx] at hsends
  exact ⟨e, he, row, htx, hl, hsends.1.trans (congrArg some hl.2.2.2.1.symm)⟩

/-- Two invitations of one entry that can be used are one, and its entry names it. -/
theorem History.usable (h : History calls draw d l) {m : MailRow} (hm : m ∈ d.mail) {w : EntryRow} (hw : w ∈ d.waitlist)
    (hid : w.id = m.waitlistId) {x : InviteRow} (hx : x ∈ d.invites) (hhash : x.inviteHash = m.tokenHash) {now : Nat}
    (hu : x.usable now) : w.inviteHash = some x.inviteHash := by
  rcases h.named m hm w hw hid with hn | hn
  · rw [hn, hhash]
  · have hrevoked := hn x hx hhash
    rw [hu.2.1] at hrevoked
    cases hrevoked

end

/-! ## Every run -/

/-- Administrators, deliveries, cron runs, enrollments and requests to join, each of which draws its own secrets. -/
theorem reviewed_invitations [Profile] {ι : Type} [DecidableEq ι] {calls : ι → Call} {draw : ι → Nat → String}
    (hdraw : ∀ i j m n, draw i m = draw j n → i = j) {d : Db}
    (hd : d.operations = [] ∧ d.waitlist = [] ∧ d.mail = [] ∧ d.sent = [] ∧ Unique InviteRow.inviteHash d.invites)
    {c : Config ι (Shared ι Db Tx) (Transactions.Request Failure Db Tx) Transactions.Request.Reply (Except Failure Unit)}
    (hr : Runs invitations (fun i p => p = ((calls i).program (draw i)).run) d c) :
    -- An operation is consumed at most once.
    (c.state.log.Pairwise fun e f => ∀ p q, e.tx = .finish p → f.tx = .finish q → p.operationId ≠ q.operationId) ∧
    -- What a step does.
    (∀ c', Step (world invitations) (fun i p => p = ((calls i).program (draw i)).run) c c' →
      (c'.state.log = c.state.log ∧ c'.state.db.operations = c.state.db.operations ∧ c'.state.db.mail = c.state.db.mail ∧
        ∀ x ∈ c'.state.db.invites, ∃ y ∈ c.state.db.invites, y.Later x) ∨
      ∃ i tx, c'.state.log = c.state.log ++ [⟨i, tx, c.state.db⟩] ∧
        -- Only a fresh assertion of the session that started an operation consumes it, and the batch issues or re-queues at most
        -- one invitation.
        (∀ o ∈ c.state.db.operations, ∃ o' ∈ c'.state.db.operations, o.Later o' ∧
          (o.consumed = false → o'.consumed = true → ∃ p, tx = .finish p ∧ p.selects o)) ∧
        (∀ p, tx = .finish p → p.Does c.state.db c'.state.db ∧ ∀ o ∈ c.state.db.operations, p.selects o →
          (calls i).session = some o.browserHash ∧ Asserted (calls i) o p.credentialId p.revision ∧
            ∃ e ∈ c.state.log, ∃ row, e.tx = .start row ∧ row.Later o ∧ (calls e.caller).session = some o.browserHash) ∧
        (∀ x ∈ c'.state.db.invites, (∃ p, tx = .finish p ∧ x.inviteHash = p.inviteHash) ∨ ∃ y ∈ c.state.db.invites, y.Later x) ∧
        -- Jobs come from approvals, move as the transaction says, and go with their entry.
        (∀ m ∈ c'.state.db.mail, (∃ o ∈ c.state.db.mail, o.same m) ∨ ∃ p id previous x, tx = .finish p ∧
          p.Replaces c.state.db c'.state.db x id previous m.id ∧ m = p.job id m.id x.expiresAt) ∧
        ∀ m ∈ c.state.db.mail, (∃ m' ∈ c'.state.db.mail, JobMoves i tx c.state.db c.state.log m m') ∨
          ∀ w ∈ c'.state.db.waitlist, w.id ≠ m.waitlistId) ∧
    -- Of the invitations that the jobs of an entry announce, only the one that the entry names can be used.
    (∀ m ∈ c.state.db.mail, ∀ w ∈ c.state.db.waitlist, w.id = m.waitlistId → ∀ x ∈ c.state.db.invites,
      x.inviteHash = m.tokenHash → x.usable c.state.db.clock → w.inviteHash = some x.inviteHash) ∧
    Unique EntryRow.id c.state.db.waitlist ∧ Unique InviteRow.inviteHash c.state.db.invites ∧
    -- One delivery holds a lease.
    Unique MailRow.id c.state.db.mail ∧
    (∀ m ∈ c.state.db.mail, ∀ lease, m.state.lease = some lease → ∃ i, HeldBy i m.id lease c.state.log) ∧
    (∀ job, claimsSince job c.state.log ≤ 5) ∧
    -- A message has the token of its job, whose invitation could be used on the clock that its claim has read.
    ∀ s ∈ c.state.db.sent, Profile.hash s.token = s.tokenHash ∧ ∃ i, Claimed i s.mailId s.lease s.tokenHash c.state.log := by
  obtain ⟨ho, hw, hm, hsent, hids⟩ := hd
  have hstart : History calls draw d [] := by
    refine ⟨ho ▸ .nil, hids, hw ▸ .nil, hm ▸ .nil, ?_, ?_, ?_, ?_, ?_, ?_, ?_, ?_, ?_, .nil, ?_, ?_⟩
    all_goals simp [ho, hm, hsent, claimsSince]
  have hentry : ∀ i p, p = ((calls i).program (draw i)).run → Valid (world invitations) (contract invitations (inviting calls draw)) i
      (fun _ _ => True) ((contract invitations (inviting calls draw)).fresh i) p := by
    intro i p hp
    rw [hp]
    exact Valid.post (Valid.weaken (program_valid hdraw i) fun _ _ _ => trivial) fun _ _ _ _ => trivial
  have hist : History calls draw c.state.db c.state.log := (Runs.good inviting_keeps hentry hstart hr).1.1
  refine ⟨hist.once, ?_, fun m hm w hw hid x hx hhash hu => hist.usable hm hw hid hx hhash hu, hist.entryIds, hist.inviteIds,
    hist.mailIds, fun m hm lease hl => ?_, hist.few, hist.sent⟩
  · intro c' hc
    have hist' : History calls draw c'.state.db c'.state.log := (Runs.good inviting_keeps hentry hstart (hr.tail hc)).1.1
    rcases step_db hc with ⟨hdb, hlog⟩ | ⟨⟨i, tx, before⟩, hlog, hbefore, hrun⟩ | ⟨⟨-, hop, hmail, -, -, gone, hinv⟩, hlog⟩
    · rw [hdb]
      exact .inl ⟨hlog, rfl, rfl, fun x hx => ⟨x, hx, .refl x⟩⟩
    · obtain rfl : before = c.state.db := hbefore
      refine .inr ⟨i, tx, hlog, fun o ho => operation_moves hrun ho, ?_, ?_, ?_, fun m hm => ?_⟩
      · intro p hp
        subst hp
        refine ⟨Finish.run_does hrun, fun o ho hq => ?_⟩
        obtain ⟨l', -, hsends⟩ := hist'.sends ⟨i, .finish p, c.state.db⟩ (hlog ▸ List.mem_append_right _ List.mem_cons_self)
        exact hist.finished hsends ho hq
      · intro x hx
        rcases (Tx.invites_step hrun).backward x hx with ⟨p, htx, hp, -⟩ | hold
        · exact .inl ⟨p, htx, hp⟩
        · exact .inr hold
      · intro m hm
        rcases Tx.mail_back hrun hm with hold | ⟨p, id, previous, x, htx, -, hrep, he⟩
        · exact .inl hold
        · exact .inr ⟨p, id, previous, x, htx, hrep, he⟩
      · exact job_moves hdraw hist (hlog ▸ hist') hrun hm
    · refine .inl ⟨hlog, hop, hmail, fun x hx => ?_⟩
      rw [hinv] at hx
      obtain ⟨y, hy, rfl⟩ := List.mem_map.mp hx
      exact ⟨y, hy, rfl, fun hrevoked => by simp only [hrevoked, Bool.true_or]⟩
  · obtain ⟨i, hi⟩ := hist.held m hm lease hl
    exact ⟨i, hist.heldBy hdraw hi⟩

/-! ## A claim after its invitation has expired -/

@[reducible] def Sample.profile : Profile :=
  { hash := id, validTx := fun _ => true, token := some, ready := true, authenticate := fun _ _ _ => some (0, false, true)
    answer := fun _ => some "message" }

/-- Secrets of 43 characters that tell the first callers apart. -/
def Sample.draw (i _n : Nat) : String := String.ofList (List.replicate i 'a' ++ List.replicate (43 - i) 'b')

/-- An administrator with a live session. -/
def Sample.db : Db :=
  { around :=
      { contexts := [⟨"sso", "cookie"⟩], sessions := [⟨"sso", "admin", "passkey", 1, 900, false⟩], boundSessions := []
        accounts := [⟨"admin", 1, true⟩], credentials := [⟨"passkey", "admin", true⟩], unixepoch := 100 }
    roles := [⟨"admin", true⟩], passkeys := [⟨"passkey", "key", "handle", 0, false, false, 1⟩], policy := some ⟨60, 300⟩
    operations := [], invites := [], waitlist := [], mail := [], sent := [] }

/-- A request to join, its approval, and enrollments with no invitation. -/
def Sample.call : Nat → Call
  | 0 => .join "person@example.org" "en" 100
  | 1 => .start ⟨true, some "cookie"⟩ (some (some ⟨Sample.draw 0 0, .invite⟩))
  | 2 => .finish ⟨true, some "cookie"⟩ ⟨Sample.draw 1 0, "response"⟩
  | _ => .enrol ""

/-- Between the clock that the claim of the approval's delivery reads and the claim, the invitation expires. -/
def Sample.moves : List (Move Nat Failure Db Tx (Except Failure Unit)) :=
  let _ := Sample.profile
  [.start 0 ((Sample.call 0).program (Sample.draw 0)).run, .go 0, .go 0,
    .start 1 ((Sample.call 1).program (Sample.draw 1)).run, .go 1, .go 1, .go 1, .go 1, .go 1,
    .start 2 ((Sample.call 2).program (Sample.draw 2)).run, .go 2, .go 2, .go 2, .go 2, .go 2, .go 2, .go 2,
    .drift fun d => { d with around := { d.around with unixepoch := max d.around.unixepoch 200 } }, .go 2, .go 2, .go 2]

theorem Sample.draw_inj {i j m n : Nat} (h : Sample.draw i m = Sample.draw j n) : i = j := by
  have hcount := congrArg (fun s => s.toList.count 'a') h
  simpa [Sample.draw, List.count_append, List.count_replicate] using hcount

/-- A message whose invitation had expired when its job was claimed. -/
def Expired (s : Sent) (e : Transactions.Entry Nat Db Tx) : Prop :=
  match e.tx with
  | .claim job now lease => job = s.mailId ∧ lease = s.lease ∧ (∃ m ∈ e.before.mail, claims job now e.before m) ∧
      ∀ x ∈ e.before.invites, x.inviteHash = s.tokenHash → x.expiresAt ≤ e.before.clock
  | _ => False

instance (s : Sent) : DecidablePred (Expired s) := fun e => by unfold Expired; cases e.tx <;> infer_instance

theorem Sample.played :
    (play invitations Failure.server Sample.moves (.initial (.initial Sample.db))).map
      (fun c => decide (∃ s ∈ c.state.db.sent, ∃ e ∈ c.state.log, Expired s e)) = some true := by
  decide +kernel

theorem Sample.reached :
    let _ := Sample.profile
    ∃ c : Config Nat (Shared Nat Db Tx) (Transactions.Request Failure Db Tx) Transactions.Request.Reply (Except Failure Unit),
      Runs invitations (fun i p => p = ((Sample.call i).program (Sample.draw i)).run) Sample.db c ∧
        ∃ s ∈ c.state.db.sent, ∃ e ∈ c.state.log, Expired s e := by
  intro _
  obtain ⟨c, hc, hd⟩ := Option.map_eq_some_iff.mp Sample.played
  refine ⟨c, play_steps (fun i p hm => ?_) (fun f hm d => ?_) hc, of_decide_eq_true hd⟩
  · simp [Sample.moves] at hm
    rcases hm with ⟨rfl, rfl⟩ | ⟨rfl, rfl⟩ | ⟨rfl, rfl⟩
    · rfl
    · rfl
    · rfl
  · simp [Sample.moves] at hm
    subst hm
    refine ⟨Nat.le_max_left _ _, rfl, rfl, rfl, ⟨EntryRow.verifiedAt, (List.map_id _).symm⟩, fun _ => false, ?_⟩
    simp only [Bool.or_false]
    exact (List.map_id _).symm

/-- Invitations are kept in the run that sends an expired one. -/
theorem reviewed_invitations_expired :
    let _ := Sample.profile
    ∃ c : Config Nat (Shared Nat Db Tx) (Transactions.Request Failure Db Tx) Transactions.Request.Reply (Except Failure Unit),
      Runs invitations (fun i p => p = ((Sample.call i).program (Sample.draw i)).run) Sample.db c ∧
        (∃ s ∈ c.state.db.sent, ∃ e ∈ c.state.log, Expired s e) ∧ Unique MailRow.id c.state.db.mail ∧
        ∀ s ∈ c.state.db.sent, Profile.hash s.token = s.tokenHash := by
  intro _
  obtain ⟨c, hc, hs⟩ := Sample.reached
  have h := reviewed_invitations (fun _ _ _ _ => Sample.draw_inj) (d := Sample.db) ⟨rfl, rfl, rfl, rfl, .nil⟩ hc
  exact ⟨c, hc, hs, h.2.2.2.2.2.1, fun s hm => (h.2.2.2.2.2.2.2.2 s hm).1⟩

/-- An invitation can expire before the job that announces it is claimed: the claim's clock was read before. -/
theorem reviewed_invitations_late :
    ∃ (_ : Profile)
      (c : Config Nat (Shared Nat Db Tx) (Transactions.Request Failure Db Tx) Transactions.Request.Reply (Except Failure Unit)),
      Runs invitations (fun i p => p = ((Sample.call i).program (Sample.draw i)).run) Sample.db c ∧
        ∃ s ∈ c.state.db.sent, ∃ e ∈ c.state.log, Expired s e :=
  ⟨Sample.profile, Sample.reached⟩

end Mikaki.Enrollment
