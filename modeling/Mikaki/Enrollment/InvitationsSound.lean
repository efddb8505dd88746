import Mikaki.Enrollment.Invitations

/-!
# What the callers keep of invitations and mail

An invitation that an entry no longer names is revoked. A lease goes back to a
delivery that has claimed the job, and the attempts of a job are counted in the
log.
-/

namespace Mikaki.Enrollment

open Concurrent Rows Transactions
open Mikaki.Vault (Failure)

variable {d d' : Db}

/-! ## What each transaction does -/

namespace Finish
variable {p : Finish}

/-- An invitation by hand is a new row and nothing else. -/
structure ByHand (p : Finish) (d d' : Db) (x : InviteRow) : Prop where
  purpose : p.purpose = .byHand
  invites : d'.invites = d.invites ++ [x]
  waitlist : d'.waitlist = d.waitlist
  mail : d'.mail = d.mail

/-- An invitation of an entry replaces the one that the entry has named, and has a job. -/
structure Replaces (p : Finish) (d d' : Db) (x : InviteRow) (id : String) (previous : Option String) (job : String) : Prop where
  purpose : p.purpose = .invite id previous job
  entry : ∃ w ∈ d.waitlist, p.replaces id previous (d.invites ++ [x]) w
  invites : d'.invites =
    update (fun i => some i.inviteHash = previous ∧ i.consumedAt = none) (fun i => { i with revoked := true }) (d.invites ++ [x])
  waitlist : d'.waitlist =
    update (p.replaces id previous (d.invites ++ [x])) (fun w => { w with inviteHash := some p.inviteHash }) d.waitlist
  fresh : ∀ m ∈ d.mail, m.id ≠ job ∧ (m.kind = .invitation → m.tokenHash ≠ p.inviteHash)
  mail : d'.mail = d.mail ++ [p.job id job x.expiresAt]

/-- A job of the entry's invitation is sent once more. -/
structure Requeues (p : Finish) (d d' : Db) (id job : String) : Prop where
  purpose : p.purpose = .resend id job
  row : ∃ m ∈ d.mail, p.requeues id job d m
  invites : d'.invites = d.invites
  waitlist : d'.waitlist = d.waitlist
  mail : d'.mail = update (p.requeues id job d)
    (fun m => { m with state := .pending, attempts := 0, nextAttemptAt := p.now, lastAttemptAt := some p.now, messageId := none }) d.mail

/-- A finished operation was open in a live session of an administrator, and issues or sends again one invitation. -/
structure Does (p : Finish) (d d' : Db) : Prop where
  selected : ∃ o ∈ d.operations, p.selects o
  session : d.around.authorised p.accountId p.credentialId p.browserHash d.clock ∧ d.isAdmin p.accountId
  operations : d'.operations = update p.selects (fun o => { o with consumed := true }) d.operations
  around : d'.around = d.around
  sent : d'.sent = d.sent
  outcome : (∃ x : InviteRow, x.inviteHash = p.inviteHash ∧ (∀ i ∈ d.invites, i.inviteHash ≠ p.inviteHash) ∧
      (p.ByHand d d' x ∨ ∃ id previous job, p.Replaces d d' x id previous job)) ∨ ∃ id job, p.Requeues d d' id job

theorem issue_some {n : Nat} {invites : List InviteRow} (h : p.issue d = some (n, invites)) :
    ∃ x : InviteRow, x.inviteHash = p.inviteHash ∧ x.expiresAt = n ∧ (∀ i ∈ d.invites, i.inviteHash ≠ p.inviteHash) ∧
      invites = d.invites ++ [x] := by
  simp only [issue, Option.bind_eq_bind, Option.bind_eq_some_iff, require_eq_some, Option.pure_def, Option.some.injEq,
    Prod.mk.injEq] at h
  obtain ⟨policy, -, -, -, -, -, rows, hinsert, rfl, rfl⟩ := h
  obtain ⟨⟨-, hfresh⟩, rfl⟩ := insert_eq_some.mp hinsert
  exact ⟨p.invitation policy.inviteTtlSeconds, rfl, rfl, hfresh, rfl⟩

theorem run_does (h : p.run d = some d') : p.Does d d' := by
  simp only [run, Option.bind_eq_bind, Option.bind_eq_some_iff, require_eq_some] at h
  obtain ⟨-, hselected, -, -, -, hsession, h⟩ := h
  cases hp : p.purpose with
  | byHand =>
    rw [hp] at h
    simp only [Option.bind_eq_some_iff, Option.pure_def, Option.some.injEq] at h
    obtain ⟨⟨n, invites⟩, hissue, rfl⟩ := h
    obtain ⟨x, hx, -, hfresh, rfl⟩ := issue_some hissue
    exact ⟨hselected, hsession, rfl, rfl, rfl, .inl ⟨x, hx, hfresh, .inl ⟨hp, rfl, rfl, rfl⟩⟩⟩
  | invite id previous job =>
    rw [hp] at h
    simp only [Option.bind_eq_some_iff, require_eq_some, Option.pure_def, Option.some.injEq] at h
    obtain ⟨⟨n, invites⟩, hissue, -, hentry, -, htoken, mail, hmail, rfl⟩ := h
    obtain ⟨x, hx, rfl, hfresh, rfl⟩ := issue_some hissue
    obtain ⟨⟨-, hjob⟩, rfl⟩ := insert_eq_some.mp hmail
    exact ⟨hselected, hsession, rfl, rfl, rfl, .inl ⟨x, hx, hfresh, .inr ⟨id, previous, job, hp, hentry, rfl, rfl,
      fun m hm => ⟨hjob m hm, htoken m hm⟩, rfl⟩⟩⟩
  | resend id job =>
    rw [hp] at h
    simp only [Option.bind_eq_some_iff, require_eq_some, Option.pure_def, Option.some.injEq] at h
    obtain ⟨-, hrow, rfl⟩ := h
    exact ⟨hselected, hsession, rfl, rfl, rfl, .inr ⟨id, job, hp, hrow, rfl, rfl, rfl⟩⟩

end Finish

theorem Tx.start_some {row : OperationRow} (h : (Tx.start row).run d = some d') :
    (∀ o ∈ d.operations, o.operationId ≠ row.operationId) ∧ d' = { d with operations := d.operations ++ [row] } := by
  simp only [run, Option.bind_eq_bind, Option.bind_eq_some_iff, Option.pure_def, Option.some.injEq] at h
  obtain ⟨operations, hinsert, rfl⟩ := h
  obtain ⟨⟨-, hfresh⟩, rfl⟩ := insert_eq_some.mp hinsert
  exact ⟨hfresh, rfl⟩

theorem enrol_some {inviteHash : String} {now : Nat} (h : enrol inviteHash now d = some d') :
    d' = { d with
      invites := update (fun i => i.inviteHash = inviteHash ∧ i.usable now) (fun i => { i with consumedAt := some now }) d.invites
      waitlist := update (fun w => w.inviteHash = some inviteHash) (fun w => { w with verifiedAt := w.verifiedAt.or (some now) })
        d.waitlist } := by
  simp only [enrol, Option.bind_eq_bind, Option.bind_eq_some_iff, Option.pure_def, Option.some.injEq] at h
  obtain ⟨-, -, rfl⟩ := h
  rfl

theorem join_some {entry : EntryRow} {maximum : Nat} (h : join entry maximum d = some d') :
    d' = d ∨ ((∀ w ∈ d.waitlist, w.id ≠ entry.id) ∧ d' = { d with waitlist := d.waitlist ++ [entry] }) := by
  unfold join at h
  split at h
  · simp only [Option.bind_eq_bind, Option.bind_eq_some_iff, Option.pure_def, Option.some.injEq] at h
    obtain ⟨waitlist, hinsert, rfl⟩ := h
    obtain ⟨⟨-, hfresh⟩, rfl⟩ := insert_eq_some.mp hinsert
    exact .inr ⟨hfresh, rfl⟩
  · cases h
    exact .inl rfl

/-! ## Operations -/

/-- The same operation, further on. -/
def OperationRow.Later (o o' : OperationRow) : Prop :=
  o'.operationId = o.operationId ∧ o'.accountId = o.accountId ∧ o'.credentialId = o.credentialId ∧ o'.browserHash = o.browserHash ∧
    o'.challenge = o.challenge ∧ o'.waitlistId = o.waitlistId ∧ o'.action = o.action ∧ (o.consumed = true → o'.consumed = true)

theorem OperationRow.Later.refl (o : OperationRow) : o.Later o := ⟨rfl, rfl, rfl, rfl, rfl, rfl, rfl, id⟩

theorem OperationRow.Later.trans {a b c : OperationRow} (h : a.Later b) (h' : b.Later c) : a.Later c :=
  ⟨h'.1.trans h.1, h'.2.1.trans h.2.1, h'.2.2.1.trans h.2.2.1, h'.2.2.2.1.trans h.2.2.2.1, h'.2.2.2.2.1.trans h.2.2.2.2.1,
    h'.2.2.2.2.2.1.trans h.2.2.2.2.2.1, h'.2.2.2.2.2.2.1.trans h.2.2.2.2.2.2.1, fun hc => h'.2.2.2.2.2.2.2 (h.2.2.2.2.2.2.2 hc)⟩

theorem Tx.operations_step {tx : Tx} (hr : tx.run d = some d') :
    Evolves OperationRow.Later (fun o => tx = .start o) d.operations d'.operations := by
  cases tx with
  | start row =>
    obtain ⟨-, rfl⟩ := Tx.start_some hr
    exact .snoc .refl rfl
  | fail operationId =>
    cases hr
    exact .update .refl fun o _ _ => ⟨rfl, rfl, rfl, rfl, rfl, rfl, rfl, id⟩
  | finish p =>
    rw [(Finish.run_does hr).operations]
    exact .update .refl fun o _ _ => ⟨rfl, rfl, rfl, rfl, rfl, rfl, rfl, fun _ => rfl⟩
  | enrol inviteHash now =>
    rw [enrol_some hr]
    exact .refl .refl
  | join entry maximum =>
    rcases join_some hr with rfl | ⟨-, rfl⟩
    · exact .refl .refl
    · exact .refl .refl
  | claim | settle | send | cancelObsolete | failStuck | sweep => cases hr; exact .refl .refl

theorem Tx.operation_ids {tx : Tx} (hr : tx.run d = some d') (h : Unique OperationRow.operationId d.operations) :
    Unique OperationRow.operationId d'.operations := by
  cases tx with
  | start row =>
    obtain ⟨hfresh, rfl⟩ := Tx.start_some hr
    exact h.snoc hfresh
  | fail operationId =>
    cases hr
    exact h.update fun _ _ _ => rfl
  | finish p =>
    rw [(Finish.run_does hr).operations]
    exact h.update fun _ _ _ => rfl
  | enrol inviteHash now =>
    rw [enrol_some hr]
    exact h
  | join entry maximum =>
    rcases join_some hr with rfl | ⟨-, rfl⟩
    · exact h
    · exact h
  | claim | settle | send | cancelObsolete | failStuck | sweep => cases hr; exact h

/-! ## Invitations and entries -/

/-- The same invitation, further on. -/
def InviteRow.Later (i i' : InviteRow) : Prop := i'.inviteHash = i.inviteHash ∧ (i.revoked = true → i'.revoked = true)

theorem InviteRow.Later.refl (i : InviteRow) : i.Later i := ⟨rfl, id⟩

theorem Tx.invites_step {tx : Tx} (hr : tx.run d = some d') :
    Evolves InviteRow.Later (fun i => ∃ p, tx = .finish p ∧ i.inviteHash = p.inviteHash ∧ ∀ o ∈ d.invites, o.inviteHash ≠ p.inviteHash)
      d.invites d'.invites := by
  cases tx with
  | finish p =>
    rcases (Finish.run_does hr).outcome with ⟨x, hx, hfresh, hby | ⟨id, previous, job, hrep⟩⟩ | ⟨id, job, hre⟩
    · rw [hby.invites]
      exact .snoc .refl ⟨p, rfl, hx, hfresh⟩
    · rw [hrep.invites]
      have hsnoc : Evolves InviteRow.Later
          (fun i => ∃ q, Tx.finish p = .finish q ∧ i.inviteHash = q.inviteHash ∧ ∀ o ∈ d.invites, o.inviteHash ≠ q.inviteHash)
          d.invites (d.invites ++ [x]) := .snoc .refl ⟨p, rfl, hx, hfresh⟩
      refine ⟨fun i hi => ?_, fun i hi => ?_⟩
      · by_cases hq : some i.inviteHash = previous ∧ i.consumedAt = none
        · exact ⟨_, mem_update.mpr ⟨i, List.mem_append_left _ hi, .inl ⟨hq, rfl⟩⟩, rfl, fun _ => rfl⟩
        · exact ⟨i, mem_update.mpr ⟨i, List.mem_append_left _ hi, .inr ⟨hq, rfl⟩⟩, .refl i⟩
      · obtain ⟨o, ho, hcase⟩ := mem_update.mp hi
        have hback := hsnoc.backward o ho
        obtain ⟨-, rfl⟩ | ⟨-, rfl⟩ := hcase
        · exact hback.imp (fun h => h) fun ⟨a, ha, hl⟩ => ⟨a, ha, hl.1, fun _ => rfl⟩
        · exact hback
    · rw [hre.invites]
      exact .refl .refl
  | start row =>
    obtain ⟨-, rfl⟩ := Tx.start_some hr
    exact .refl .refl
  | enrol inviteHash now =>
    rw [enrol_some hr]
    exact .update .refl fun i _ _ => ⟨rfl, id⟩
  | join entry maximum =>
    rcases join_some hr with rfl | ⟨-, rfl⟩
    · exact .refl .refl
    · exact .refl .refl
  | fail | claim | settle | send | cancelObsolete | failStuck | sweep => cases hr; exact .refl .refl

theorem Tx.invite_ids {tx : Tx} (hr : tx.run d = some d') (h : Unique InviteRow.inviteHash d.invites) :
    Unique InviteRow.inviteHash d'.invites := by
  cases tx with
  | finish p =>
    rcases (Finish.run_does hr).outcome with ⟨x, hx, hfresh, hby | ⟨id, previous, job, hrep⟩⟩ | ⟨id, job, hre⟩
    · rw [hby.invites]
      exact h.snoc (hx ▸ hfresh)
    · rw [hrep.invites]
      exact (h.snoc (hx ▸ hfresh)).update fun _ _ _ => rfl
    · rw [hre.invites]
      exact h
  | start row =>
    obtain ⟨-, rfl⟩ := Tx.start_some hr
    exact h
  | enrol inviteHash now =>
    rw [enrol_some hr]
    exact h.update fun _ _ _ => rfl
  | join entry maximum =>
    rcases join_some hr with rfl | ⟨-, rfl⟩
    · exact h
    · exact h
  | fail | claim | settle | send | cancelObsolete | failStuck | sweep => cases hr; exact h

/-- Where an entry comes from: it was there, it got another invitation, or it has joined. -/
inductive EntryStep (tx : Tx) (d d' : Db) (w' : EntryRow) : Prop
  | same (w : EntryRow) (hw : w ∈ d.waitlist) (hid : w'.id = w.id) (hi : w'.inviteHash = w.inviteHash)
  | replaced (p : Finish) (x : InviteRow) (previous : Option String) (job : String) (w : EntryRow) (htx : tx = .finish p)
      (hx : x.inviteHash = p.inviteHash) (hfresh : ∀ i ∈ d.invites, i.inviteHash ≠ p.inviteHash)
      (hrep : p.Replaces d d' x w.id previous job) (hw : w ∈ d.waitlist) (hq : p.replaces w.id previous (d.invites ++ [x]) w)
      (hid : w'.id = w.id) (hi : w'.inviteHash = some p.inviteHash)
  | joined (maximum : Nat) (htx : tx = .join w' maximum) (hfresh : ∀ w ∈ d.waitlist, w.id ≠ w'.id)

theorem Tx.entry_step {tx : Tx} (hr : tx.run d = some d') {w' : EntryRow} (hm : w' ∈ d'.waitlist) : EntryStep tx d d' w' := by
  cases tx with
  | finish p =>
    rcases (Finish.run_does hr).outcome with ⟨x, hx, hfresh, hby | ⟨id, previous, job, hrep⟩⟩ | ⟨id, job, hre⟩
    · exact .same w' (hby.waitlist ▸ hm) rfl rfl
    · rw [hrep.waitlist] at hm
      obtain ⟨w, hw, ⟨hq, rfl⟩ | ⟨-, rfl⟩⟩ := mem_update.mp hm
      · obtain rfl : w.id = id := hq.1
        exact .replaced p x previous job w rfl hx hfresh hrep hw hq rfl rfl
      · exact .same w' hw rfl rfl
    · exact .same w' (hre.waitlist ▸ hm) rfl rfl
  | start row =>
    obtain ⟨-, rfl⟩ := Tx.start_some hr
    exact .same w' hm rfl rfl
  | enrol inviteHash now =>
    rw [enrol_some hr] at hm
    obtain ⟨w, hw, ⟨-, rfl⟩ | ⟨-, rfl⟩⟩ := mem_update.mp hm
    · exact .same w hw rfl rfl
    · exact .same w' hw rfl rfl
  | join entry maximum =>
    rcases join_some hr with rfl | ⟨hfresh, rfl⟩
    · exact .same w' hm rfl rfl
    · rcases mem_snoc.mp hm with hm | rfl
      · exact .same w' hm rfl rfl
      · exact .joined maximum rfl hfresh
  | sweep =>
    cases hr
    exact .same w' (List.mem_of_mem_filter hm) rfl rfl
  | fail | claim | settle | send | cancelObsolete | failStuck => cases hr; exact .same w' hm rfl rfl

/-- Entries stay, but for the sweep. -/
theorem Tx.entries_stay {tx : Tx} (hr : tx.run d = some d') (hsweep : tx ≠ .sweep) :
    ∀ w ∈ d.waitlist, ∃ w' ∈ d'.waitlist, w'.id = w.id := by
  intro w hw
  have hupdate : ∀ {q : EntryRow → Prop} [DecidablePred q] {f : EntryRow → EntryRow}, d'.waitlist = update q f d.waitlist →
      (∀ a, (f a).id = a.id) → ∃ w' ∈ d'.waitlist, w'.id = w.id := by
    intro q _ f hd hf
    rw [hd]
    by_cases hq : q w
    · exact ⟨f w, mem_update.mpr ⟨w, hw, .inl ⟨hq, rfl⟩⟩, hf w⟩
    · exact ⟨w, mem_update.mpr ⟨w, hw, .inr ⟨hq, rfl⟩⟩, rfl⟩
  cases tx with
  | finish p =>
    rcases (Finish.run_does hr).outcome with ⟨x, hx, hfresh, hby | ⟨id, previous, job, hrep⟩⟩ | ⟨id, job, hre⟩
    · exact ⟨w, hby.waitlist ▸ hw, rfl⟩
    · exact hupdate hrep.waitlist fun _ => rfl
    · exact ⟨w, hre.waitlist ▸ hw, rfl⟩
  | start row =>
    obtain ⟨-, rfl⟩ := Tx.start_some hr
    exact ⟨w, hw, rfl⟩
  | enrol inviteHash now => exact hupdate (congrArg Db.waitlist (enrol_some hr)) fun _ => rfl
  | join entry maximum =>
    rcases join_some hr with rfl | ⟨-, rfl⟩
    · exact ⟨w, hw, rfl⟩
    · exact ⟨w, List.mem_append_left _ hw, rfl⟩
  | sweep => exact absurd rfl hsweep
  | fail | claim | settle | send | cancelObsolete | failStuck => cases hr; exact ⟨w, hw, rfl⟩

theorem Tx.entry_ids {tx : Tx} (hr : tx.run d = some d') (h : Unique EntryRow.id d.waitlist) :
    Unique EntryRow.id d'.waitlist := by
  cases tx with
  | finish p =>
    rcases (Finish.run_does hr).outcome with ⟨x, hx, hfresh, hby | ⟨id, previous, job, hrep⟩⟩ | ⟨id, job, hre⟩
    · rw [hby.waitlist]
      exact h
    · rw [hrep.waitlist]
      exact h.update fun _ _ _ => rfl
    · rw [hre.waitlist]
      exact h
  | start row =>
    obtain ⟨-, rfl⟩ := Tx.start_some hr
    exact h
  | enrol inviteHash now =>
    rw [enrol_some hr]
    exact h.update fun _ _ _ => rfl
  | join entry maximum =>
    rcases join_some hr with rfl | ⟨hfresh, rfl⟩
    · exact h
    · exact h.snoc hfresh
  | sweep =>
    cases hr
    exact h.filter _
  | fail | claim | settle | send | cancelObsolete | failStuck => cases hr; exact h

/-! ## Jobs -/

/-- The same job. -/
def MailRow.same (m m' : MailRow) : Prop :=
  m'.id = m.id ∧ m'.waitlistId = m.waitlistId ∧ m'.tokenHash = m.tokenHash ∧ m'.kind = m.kind

theorem MailRow.same.refl (m : MailRow) : m.same m := ⟨rfl, rfl, rfl, rfl⟩

theorem Settlement.apply_same (p : Settlement) (m : MailRow) : m.same (p.apply m) ∧ (p.apply m).attempts = m.attempts ∧
    (p.apply m).state.lease = none := by
  unfold Settlement.apply
  cases p.outcome with
  | ok messageId => exact ⟨⟨rfl, rfl, rfl, rfl⟩, rfl, rfl⟩
  | error nextAttemptAt => exact ⟨⟨rfl, rfl, rfl, rfl⟩, rfl, rfl⟩

/-- Where a job comes from. -/
inductive MailStep (tx : Tx) (d d' : Db) (m' : MailRow) : Prop
  /-- No attempt is counted, and no lease is new. -/
  | same (m : MailRow) (hm : m ∈ d.mail) (hs : m.same m') (ha : m'.attempts = m.attempts)
      (hl : m'.state.lease = none ∨ m'.state = m.state) (hclaim : ∀ id now lease, tx = .claim id now lease → ¬claims id now d m)
      (hqueue : ∀ p w, tx = .finish p → p.purpose = .resend w m.id → ¬p.requeues w m.id d m)
  | claimed (id : String) (now : Nat) (lease : String) (m : MailRow) (htx : tx = .claim id now lease) (hm : m ∈ d.mail)
      (hc : claims id now d m) (hs : m.same m') (ha : m'.attempts = m.attempts + 1) (hl : m'.state.lease = some lease)
  | requeued (p : Finish) (w : String) (m : MailRow) (htx : tx = .finish p) (hp : p.purpose = .resend w m.id) (hm : m ∈ d.mail)
      (hs : m.same m') (ha : m'.attempts = 0) (hl : m'.state.lease = none)
  | made (p : Finish) (id : String) (previous : Option String) (x : InviteRow) (htx : tx = .finish p)
      (hx : x.inviteHash = p.inviteHash) (hrep : p.Replaces d d' x id previous m'.id) (he : m' = p.job id m'.id x.expiresAt)

theorem Tx.mail_step {tx : Tx} (hr : tx.run d = some d') {m' : MailRow} (hm : m' ∈ d'.mail) : MailStep tx d d' m' := by
  have hsame : m' ∈ d.mail → (∀ id now lease, tx ≠ .claim id now lease) → (∀ p, tx ≠ .finish p) → MailStep tx d d' m' :=
    fun h hc hf => .same m' h (.refl m') rfl (.inr rfl) (fun _ _ _ ht => absurd ht (hc _ _ _)) fun _ _ ht => absurd ht (hf _)
  cases tx with
  | finish p =>
    rcases (Finish.run_does hr).outcome with ⟨x, hx, hfresh, hby | ⟨id, previous, job, hrep⟩⟩ | ⟨id, job, hre⟩
    · refine .same m' (hby.mail ▸ hm) (.refl m') rfl (.inr rfl) (fun _ _ _ ht => by cases ht) fun q w ht hp => ?_
      cases ht
      rw [hby.purpose] at hp
      cases hp
    · rw [hrep.mail] at hm
      rcases mem_snoc.mp hm with hm | rfl
      · refine .same m' hm (.refl m') rfl (.inr rfl) (fun _ _ _ ht => by cases ht) fun q w ht hp => ?_
        cases ht
        rw [hrep.purpose] at hp
        cases hp
      · exact .made p id previous x rfl hx hrep rfl
    · rw [hre.mail] at hm
      obtain ⟨m, hmem, ⟨hq, rfl⟩ | ⟨hq, rfl⟩⟩ := mem_update.mp hm
      · obtain rfl : m.id = job := hq.1
        exact .requeued p id m rfl hre.purpose hmem ⟨rfl, rfl, rfl, rfl⟩ rfl rfl
      · refine .same m' hmem (.refl m') rfl (.inr rfl) (fun _ _ _ ht => by cases ht) fun q w ht hp => ?_
        cases ht
        rw [hre.purpose] at hp
        cases hp
        exact hq
  | claim id now lease =>
    cases hr
    obtain ⟨m, hmem, ⟨hc, rfl⟩ | ⟨hc, rfl⟩⟩ := mem_update.mp hm
    · exact .claimed id now lease m rfl hmem hc ⟨rfl, rfl, rfl, rfl⟩ rfl rfl
    · refine .same m' hmem (.refl m') rfl (.inr rfl) (fun i n l ht => ?_) fun _ _ ht => by cases ht
      cases ht
      exact hc
  | settle p =>
    cases hr
    obtain ⟨m, hmem, ⟨-, rfl⟩ | ⟨-, rfl⟩⟩ := mem_update.mp hm
    · obtain ⟨hs, ha, hl⟩ := p.apply_same m
      exact .same m hmem hs ha (.inl hl) (fun _ _ _ ht => by cases ht) fun _ _ ht => by cases ht
    · exact hsame hmem (fun _ _ _ ht => by cases ht) fun _ ht => by cases ht
  | cancelObsolete =>
    cases hr
    obtain ⟨m, hmem, ⟨-, rfl⟩ | ⟨-, rfl⟩⟩ := mem_update.mp hm
    · exact .same m hmem ⟨rfl, rfl, rfl, rfl⟩ rfl (.inl rfl) (fun _ _ _ ht => by cases ht) fun _ _ ht => by cases ht
    · exact hsame hmem (fun _ _ _ ht => by cases ht) fun _ ht => by cases ht
  | failStuck =>
    cases hr
    obtain ⟨m, hmem, ⟨-, rfl⟩ | ⟨-, rfl⟩⟩ := mem_update.mp hm
    · exact .same m hmem ⟨rfl, rfl, rfl, rfl⟩ rfl (.inl rfl) (fun _ _ _ ht => by cases ht) fun _ _ ht => by cases ht
    · exact hsame hmem (fun _ _ _ ht => by cases ht) fun _ ht => by cases ht
  | sweep =>
    cases hr
    obtain ⟨m, hmem, ⟨-, rfl⟩ | ⟨-, rfl⟩⟩ := mem_update.mp (List.mem_of_mem_filter hm)
    · exact .same m hmem ⟨rfl, rfl, rfl, rfl⟩ rfl (.inl rfl) (fun _ _ _ ht => by cases ht) fun _ _ ht => by cases ht
    · exact hsame hmem (fun _ _ _ ht => by cases ht) fun _ ht => by cases ht
  | start row =>
    obtain ⟨-, rfl⟩ := Tx.start_some hr
    exact hsame hm (fun _ _ _ ht => by cases ht) fun _ ht => by cases ht
  | enrol inviteHash now =>
    rw [enrol_some hr] at hm
    exact hsame hm (fun _ _ _ ht => by cases ht) fun _ ht => by cases ht
  | join entry maximum =>
    rcases join_some hr with rfl | ⟨-, rfl⟩
    · exact hsame hm (fun _ _ _ ht => by cases ht) fun _ ht => by cases ht
    · exact hsame hm (fun _ _ _ ht => by cases ht) fun _ ht => by cases ht
  | fail | send => cases hr; exact hsame hm (fun _ _ _ ht => by cases ht) fun _ ht => by cases ht

/-- A job was there, or it comes with the invitation of its entry. -/
theorem Tx.mail_back {tx : Tx} (hr : tx.run d = some d') {m : MailRow} (hm : m ∈ d'.mail) :
    (∃ o ∈ d.mail, o.same m) ∨ ∃ (p : Finish) (id : String) (previous : Option String) (x : InviteRow), tx = .finish p ∧
      x.inviteHash = p.inviteHash ∧ p.Replaces d d' x id previous m.id ∧ m = p.job id m.id x.expiresAt := by
  cases Tx.mail_step hr hm with
  | same o ho hs => exact .inl ⟨o, ho, hs⟩
  | claimed id now lease o htx ho hc hs => exact .inl ⟨o, ho, hs⟩
  | requeued p w o htx hp ho hs => exact .inl ⟨o, ho, hs⟩
  | made p id previous x htx hx hrep he => exact .inr ⟨p, id, previous, x, htx, hx, hrep, he⟩

theorem Tx.mail_ids {tx : Tx} (hr : tx.run d = some d') (h : Unique MailRow.id d.mail) : Unique MailRow.id d'.mail := by
  cases tx with
  | finish p =>
    rcases (Finish.run_does hr).outcome with ⟨x, hx, hfresh, hby | ⟨id, previous, job, hrep⟩⟩ | ⟨id, job, hre⟩
    · rw [hby.mail]
      exact h
    · rw [hrep.mail]
      exact h.snoc fun m hm => (hrep.fresh m hm).1
    · rw [hre.mail]
      exact h.update fun _ _ _ => rfl
  | start row =>
    obtain ⟨-, rfl⟩ := Tx.start_some hr
    exact h
  | enrol inviteHash now =>
    rw [enrol_some hr]
    exact h
  | join entry maximum =>
    rcases join_some hr with rfl | ⟨-, rfl⟩
    · exact h
    · exact h
  | sweep =>
    cases hr
    refine Unique.filter ?_ _
    exact h.update fun _ _ _ => rfl
  | settle p =>
    cases hr
    exact h.update fun m _ _ => (p.apply_same m).1.1
  | claim | cancelObsolete | failStuck => cases hr; exact h.update fun _ _ _ => rfl
  | fail | send => cases hr; exact h

/-! ## Messages and the clock -/

theorem Tx.sent_step {tx : Tx} (hr : tx.run d = some d') {s : Sent} (hm : s ∈ d'.sent) : s ∈ d.sent ∨ tx = .send s := by
  cases tx with
  | send x =>
    cases hr
    rcases mem_snoc.mp hm with hm | rfl
    · exact .inl hm
    · exact .inr rfl
  | finish p => exact .inl ((Finish.run_does hr).sent ▸ hm)
  | start row =>
    obtain ⟨-, rfl⟩ := Tx.start_some hr
    exact .inl hm
  | enrol inviteHash now =>
    rw [enrol_some hr] at hm
    exact .inl hm
  | join entry maximum =>
    rcases join_some hr with rfl | ⟨-, rfl⟩
    · exact .inl hm
    · exact .inl hm
  | fail | claim | settle | cancelObsolete | failStuck | sweep => cases hr; exact .inl hm

/-- No transaction here writes the accounts or the clock. -/
theorem Tx.around_step {tx : Tx} (hr : tx.run d = some d') : d'.around = d.around := by
  cases tx with
  | finish p => exact (Finish.run_does hr).around
  | start row =>
    obtain ⟨-, rfl⟩ := Tx.start_some hr
    rfl
  | enrol inviteHash now =>
    rw [enrol_some hr]
  | join entry maximum =>
    rcases join_some hr with rfl | ⟨-, rfl⟩
    · rfl
    · rfl
  | _ => cases hr; rfl

/-! ## Attempts -/

/-- The operation starts a job, or starts it over. -/
def Tx.queues (job : String) : Tx → Bool
  | .finish p =>
    match p.purpose with
    | .byHand => false
    | .invite _ _ id | .resend _ id => id == job
  | _ => false

section
variable {ι : Type}

/-- A delivery that has leased the job. -/
def claimed (job : String) (e : Transactions.Entry ι Db Tx) : Bool :=
  match e.tx with
  | .claim id now _ => decide (id = job ∧ ∃ m ∈ e.before.mail, claims id now e.before m)
  | _ => false

/-- How often the job was claimed since it was last approved or sent again. -/
def claimsSince (job : String) (l : List (Transactions.Entry ι Db Tx)) : Nat :=
  l.foldl (fun n e => if e.tx.queues job then 0 else if claimed job e then n + 1 else n) 0

theorem claimsSince_snoc (job : String) (l : List (Transactions.Entry ι Db Tx)) (e : Transactions.Entry ι Db Tx) :
    claimsSince job (l ++ [e]) =
      if e.tx.queues job then 0 else if claimed job e then claimsSince job l + 1 else claimsSince job l := by
  unfold claimsSince
  rw [List.foldl_append]
  rfl

/-- The caller has leased the job, of an invitation that could be used on the clock it had read. -/
def Claimed (i : ι) (id lease tokenHash : String) (l : List (Transactions.Entry ι Db Tx)) : Prop :=
  ∃ now before, ⟨i, .claim id now lease, before⟩ ∈ l ∧ now ≤ before.clock ∧
    ∃ m ∈ before.mail, claims id now before m ∧ m.tokenHash = tokenHash

theorem Claimed.mono {i : ι} {id lease tokenHash : String} {l l' : List (Transactions.Entry ι Db Tx)}
    (h : Claimed i id lease tokenHash l) : Claimed i id lease tokenHash (l ++ l') := by
  obtain ⟨now, before, hm, hc⟩ := h
  exact ⟨now, before, List.mem_append_left _ hm, hc⟩

variable [Profile] (calls : ι → Call) (draw : ι → Nat → String)

/-- The session that the request carries. -/
def Call.session : Call → Option String
  | .start request _ | .finish request _ => request.cookie.map Profile.hash
  | _ => none

/-- The request's response is an assertion of the credential for the operation's challenge, with the user verified. -/
def Asserted (call : Call) (o : OperationRow) (credential : String) (revision : Nat) : Prop :=
  ∃ request input passkey counter backupState, call = .finish request input ∧ input.operationId = o.operationId ∧
    passkey.credentialId = credential ∧ passkey.revision = revision ∧ Profile.authenticate o.challenge passkey input.response = some (counter, backupState, true)

/-- What a caller may send. -/
def Sends (i : ι) (d : Db) (l : List (Transactions.Entry ι Db Tx)) : Tx → Prop
  | .start row => (calls i).session = some row.browserHash ∧ row.consumed = false
  | .finish p => (calls i).session = some p.browserHash ∧
      ∃ o ∈ d.operations, o.operationId = p.operationId ∧ Asserted (calls i) o p.credentialId p.revision
  | .claim _ now lease => (∃ n, lease = draw i n) ∧ now ≤ d.clock
  | .settle p => ∃ tokenHash, Claimed i p.id p.lease tokenHash l
  | .send s => Profile.hash s.token = s.tokenHash ∧ Claimed i s.mailId s.lease s.tokenHash l
  | _ => True

/-- What the rows and the log say about each other. -/
structure History (d : Db) (l : List (Transactions.Entry ι Db Tx)) : Prop where
  operationIds : Unique OperationRow.operationId d.operations
  inviteIds : Unique InviteRow.inviteHash d.invites
  entryIds : Unique EntryRow.id d.waitlist
  mailIds : Unique MailRow.id d.mail
  kinds : ∀ m ∈ d.mail, m.kind = .invitation
  /-- A job has its entry and its invitation. -/
  owned : ∀ m ∈ d.mail, ∃ w ∈ d.waitlist, w.id = m.waitlistId
  issued : ∀ m ∈ d.mail, ∃ i ∈ d.invites, i.inviteHash = m.tokenHash
  /-- An invitation that its entry does not name is revoked. -/
  named : ∀ m ∈ d.mail, ∀ w ∈ d.waitlist, w.id = m.waitlistId →
    w.inviteHash = some m.tokenHash ∨ ∀ i ∈ d.invites, i.inviteHash = m.tokenHash → i.revoked = true
  attempts : ∀ m ∈ d.mail, m.attempts = claimsSince m.id l
  few : ∀ job, claimsSince job l ≤ 5
  held : ∀ m ∈ d.mail, ∀ lease, m.state.lease = some lease → ∃ i, Claimed i m.id lease m.tokenHash l
  started : ∀ o ∈ d.operations, ∃ e ∈ l, ∃ row, e.tx = .start row ∧ row.Later o
  consumed : ∀ e ∈ l, ∀ p, e.tx = .finish p → ∃ o ∈ d.operations, o.operationId = p.operationId ∧ o.consumed = true
  once : l.Pairwise fun e f => ∀ p q, e.tx = .finish p → f.tx = .finish q → p.operationId ≠ q.operationId
  /-- What was logged was sent as the caller may. -/
  sends : ∀ e ∈ l, ∃ l', l' <+: l ∧ Sends calls draw e.caller e.before l' e.tx
  sent : ∀ s ∈ d.sent, Profile.hash s.token = s.tokenHash ∧ ∃ i, Claimed i s.mailId s.lease s.tokenHash l

variable {calls draw} {l : List (Transactions.Entry ι Db Tx)} {i : ι}

theorem History.kinds_step (h : History calls draw d l) {tx : Tx} (hr : tx.run d = some d') :
    ∀ m ∈ d'.mail, m.kind = .invitation := by
  intro m hm
  rcases Tx.mail_back hr hm with ⟨o, ho, hs⟩ | ⟨p, id, previous, x, -, -, -, he⟩
  · exact hs.2.2.2.trans (h.kinds o ho)
  · rw [he]
    rfl

theorem History.issued_step (h : History calls draw d l) {tx : Tx} (hr : tx.run d = some d') :
    ∀ m ∈ d'.mail, ∃ j ∈ d'.invites, j.inviteHash = m.tokenHash := by
  intro m hm
  rcases Tx.mail_back hr hm with ⟨o, ho, hs⟩ | ⟨p, id, previous, x, rfl, hx, hrep, he⟩
  · obtain ⟨j, hj, hhash⟩ := h.issued o ho
    obtain ⟨j', hj', hl⟩ := (Tx.invites_step hr).forward j hj
    exact ⟨j', hj', hl.1.trans (hhash.trans hs.2.2.1.symm)⟩
  · have htoken : x.inviteHash = m.tokenHash := by
      rw [hx, he]
      rfl
    rw [hrep.invites]
    by_cases hq : some x.inviteHash = previous ∧ x.consumedAt = none
    · exact ⟨_, mem_update.mpr ⟨x, List.mem_append_right _ List.mem_cons_self, .inl ⟨hq, rfl⟩⟩, htoken⟩
    · exact ⟨x, mem_update.mpr ⟨x, List.mem_append_right _ List.mem_cons_self, .inr ⟨hq, rfl⟩⟩, htoken⟩

theorem History.owned_step (h : History calls draw d l) {tx : Tx} (hr : tx.run d = some d') :
    ∀ m ∈ d'.mail, ∃ w ∈ d'.waitlist, w.id = m.waitlistId := by
  intro m hm
  have hold : ∀ {sso : String}, tx ≠ .sweep → (∃ w ∈ d.waitlist, w.id = sso) → ∃ w ∈ d'.waitlist, w.id = sso := by
    rintro _ hsweep ⟨w, hw, rfl⟩
    obtain ⟨w', hw', hid⟩ := Tx.entries_stay hr hsweep w hw
    exact ⟨w', hw', hid⟩
  by_cases hsweep : tx = .sweep
  · subst hsweep
    cases hr
    obtain ⟨hm, hgone⟩ := List.mem_filter.mp hm
    obtain ⟨o, ho, hcase⟩ := mem_update.mp hm
    have howner : o.waitlistId = m.waitlistId := by obtain ⟨-, rfl⟩ | ⟨-, rfl⟩ := hcase <;> rfl
    obtain ⟨w, hw, hid⟩ := h.owned o ho
    refine ⟨w, List.mem_filter.mpr ⟨hw, ?_⟩, hid.trans howner⟩
    rw [hid, howner]
    exact hgone
  · rcases Tx.mail_back hr hm with ⟨o, ho, hs⟩ | ⟨p, id, previous, x, rfl, hx, hrep, he⟩
    · rw [hs.2.1]
      exact hold hsweep (h.owned o ho)
    · obtain ⟨w, hw, hq⟩ := hrep.entry
      rw [he]
      exact hold hsweep ⟨w, hw, hq.1⟩

theorem History.named_step (h : History calls draw d l) {tx : Tx} (hr : tx.run d = some d') :
    ∀ m ∈ d'.mail, ∀ w ∈ d'.waitlist, w.id = m.waitlistId →
      w.inviteHash = some m.tokenHash ∨ ∀ j ∈ d'.invites, j.inviteHash = m.tokenHash → j.revoked = true := by
  intro m hm w hw hid
  rcases Tx.mail_back hr hm with ⟨o, ho, hs⟩ | ⟨p, id, previous, x, rfl, hx, hrep, he⟩
  · have hrevoked : (∀ j ∈ d.invites, j.inviteHash = o.tokenHash → j.revoked = true) →
        ∀ j ∈ d'.invites, j.inviteHash = m.tokenHash → j.revoked = true := by
      intro hold j hj hhash
      rcases (Tx.invites_step hr).backward j hj with ⟨p, rfl, hp, hfresh⟩ | ⟨a, ha, hl⟩
      · obtain ⟨a, ha, hah⟩ := h.issued o ho
        exact absurd (hah.trans (hs.2.2.1.symm.trans (hhash.symm.trans hp))) (hfresh a ha)
      · exact hl.2 (hold a ha (hl.1.symm.trans (hhash.trans hs.2.2.1)))
    cases Tx.entry_step hr hw with
    | same v hv hvid hvi =>
      rcases h.named o ho v hv (hvid.symm.trans (hid.trans hs.2.1)) with hn | hn
      · exact .inl (hvi.trans (hn.trans (congrArg some hs.2.2.1.symm)))
      · exact .inr (hrevoked hn)
    | joined maximum htx hfresh =>
      obtain ⟨v, hv, hvid⟩ := h.owned o ho
      exact absurd (hvid.trans (hs.2.1.symm.trans hid.symm)) (hfresh v hv)
    | replaced p x previous job v htx hx hfresh hrep hv hq hvid hvi =>
      rcases h.named o ho v hv (hvid.symm.trans (hid.trans hs.2.1)) with hn | hn
      · -- The invitation that is replaced was not consumed: it is revoked.
        refine .inr fun j hj hhash => ?_
        rcases hq.2.2 with hnone | ⟨a, ha, hah, hopen, -⟩
        · rw [hnone] at hn
          cases hn
        · rw [hrep.invites] at hj
          obtain ⟨b, hb, ⟨-, rfl⟩ | ⟨hb', rfl⟩⟩ := mem_update.mp hj
          · rfl
          · have hunique : Unique InviteRow.inviteHash (d.invites ++ [x]) := h.inviteIds.snoc (hx ▸ hfresh)
            have hba : j = a := by
              refine hunique.eq hb ha (Option.some.inj ?_)
              rw [hah, hn, hhash, hs.2.2.1]
            exact absurd ⟨by rw [hba, hah, hq.2.1], by rw [hba, hopen]⟩ hb'
      · exact .inr (hrevoked hn)
  · left
    rw [hrep.waitlist] at hw
    have hwid : w.id = id := by rw [hid, he]; rfl
    have htoken : m.tokenHash = p.inviteHash := by rw [he]; rfl
    obtain ⟨v, hv, ⟨-, rfl⟩ | ⟨hq, rfl⟩⟩ := mem_update.mp hw
    · rw [htoken]
    · obtain ⟨u, hu, hqu⟩ := hrep.entry
      obtain rfl := h.entryIds.eq hv hu (hwid.trans hqu.1.symm)
      exact absurd hqu hq

/-- What is no claim of the row and does not start it over counts nothing. -/
theorem History.uncounted (h : History calls draw d l) {tx : Tx} (hr : tx.run d = some d') {m : MailRow} (hm : m ∈ d.mail)
    (hclaim : ∀ id now lease, tx = .claim id now lease → ¬claims id now d m)
    (hqueue : ∀ p w, tx = .finish p → p.purpose = .resend w m.id → ¬p.requeues w m.id d m) :
    tx.queues m.id = false ∧ claimed m.id ⟨i, tx, d⟩ = false := by
  cases tx with
  | finish p =>
    refine ⟨?_, rfl⟩
    rcases (Finish.run_does hr).outcome with ⟨x, -, -, hby | ⟨id, previous, job, hrep⟩⟩ | ⟨id, job, hre⟩
    · simp only [Tx.queues, hby.purpose]
    · simp only [Tx.queues, hrep.purpose]
      exact beq_false_of_ne fun he => (hrep.fresh m hm).1 he.symm
    · simp only [Tx.queues, hre.purpose]
      refine beq_false_of_ne fun he => ?_
      subst he
      obtain ⟨o, ho, hq⟩ := hre.row
      obtain rfl := h.mailIds.eq ho hm hq.1
      exact hqueue p id rfl hre.purpose hq
  | claim id now lease =>
    refine ⟨rfl, ?_⟩
    simp only [claimed, decide_eq_false_iff_not]
    rintro ⟨rfl, o, ho, hc⟩
    obtain rfl := h.mailIds.eq ho hm hc.1
    exact hclaim o.id now lease rfl hc
  | _ => exact ⟨rfl, rfl⟩

theorem History.attempts_step (h : History calls draw d l) {tx : Tx} (hr : tx.run d = some d') :
    ∀ m ∈ d'.mail, m.attempts = claimsSince m.id (l ++ [⟨i, tx, d⟩]) := by
  intro m hm
  rw [claimsSince_snoc]
  cases Tx.mail_step hr hm with
  | same o ho hs ha hl hclaim hqueue =>
    obtain ⟨hqueues, hclaimed⟩ := h.uncounted (i := i) hr ho hclaim hqueue
    rw [hs.1, hqueues, hclaimed]
    exact ha.trans (h.attempts o ho)
  | claimed id now lease o htx ho hc hs ha =>
    subst htx
    have hclaimed : claimed m.id (⟨i, .claim id now lease, d⟩ : Transactions.Entry ι Db Tx) = true := by
      simp only [claimed, decide_eq_true_eq]
      exact ⟨hc.1.symm.trans hs.1.symm, o, ho, hc⟩
    have hcount := h.attempts o ho
    rw [show Tx.queues m.id (.claim id now lease) = false from rfl, if_neg Bool.false_ne_true, if_pos hclaimed, ha, hcount, hs.1]
  | requeued p w o htx hp ho hs ha =>
    have hqueues : tx.queues m.id = true := by
      rw [htx]
      simp only [Tx.queues, hp, hs.1, beq_self_eq_true]
    rw [if_pos hqueues]
    exact ha
  | made p id previous x htx hx hrep he =>
    have hqueues : tx.queues m.id = true := by
      rw [htx]
      simp only [Tx.queues, hrep.purpose, beq_self_eq_true]
    rw [if_pos hqueues, he]
    rfl

theorem History.few_step (h : History calls draw d l) {tx : Tx} (job : String) :
    claimsSince job (l ++ [⟨i, tx, d⟩]) ≤ 5 := by
  rw [claimsSince_snoc]
  by_cases hqueues : tx.queues job = true
  · rw [if_pos hqueues]
    exact Nat.zero_le _
  rw [if_neg hqueues]
  by_cases hclaimed : claimed job (⟨i, tx, d⟩ : Transactions.Entry ι Db Tx) = true
  · rw [if_pos hclaimed]
    cases tx with
    | claim id now lease =>
      simp only [claimed, decide_eq_true_eq] at hclaimed
      obtain ⟨rfl, m, hm, hc⟩ := hclaimed
      have hcount := h.attempts m hm
      have hfew := hc.2.2.1
      rw [hc.1] at hcount
      omega
    | _ => cases hclaimed
  · rw [if_neg hclaimed]
    exact h.few job

theorem History.held_step (h : History calls draw d l) {tx : Tx} (hs : Sends calls draw i d l tx) (hr : tx.run d = some d') :
    ∀ m ∈ d'.mail, ∀ lease, m.state.lease = some lease → ∃ j, Claimed j m.id lease m.tokenHash (l ++ [⟨i, tx, d⟩]) := by
  intro m hm lease hlease
  cases Tx.mail_step hr hm with
  | same o ho hsame ha hl hclaim hqueue =>
    rcases hl with hl | hl
    · rw [hl] at hlease
      cases hlease
    · rw [hl] at hlease
      obtain ⟨j, hj⟩ := h.held o ho lease hlease
      rw [hsame.1, hsame.2.2.1]
      exact ⟨j, hj.mono⟩
  | claimed id now own o htx ho hc hsame ha hl =>
    subst htx
    rw [hl] at hlease
    cases hlease
    rw [hsame.1, hc.1]
    exact ⟨i, now, d, List.mem_append_right _ List.mem_cons_self, hs.2, o, ho, hc, hsame.2.2.1.symm⟩
  | requeued p w o htx hp ho hsame ha hl =>
    rw [hl] at hlease
    cases hlease
  | made p id previous x htx hx hrep he =>
    rw [he] at hlease
    cases hlease

theorem History.started_step (h : History calls draw d l) {tx : Tx} (hr : tx.run d = some d') :
    ∀ o ∈ d'.operations, ∃ e ∈ l ++ [⟨i, tx, d⟩], ∃ row, e.tx = .start row ∧ row.Later o := by
  intro o ho
  rcases (Tx.operations_step hr).backward o ho with rfl | ⟨a, ha, hl⟩
  · exact ⟨_, List.mem_append_right _ List.mem_cons_self, o, rfl, .refl o⟩
  · obtain ⟨e, he, row, htx, hrow⟩ := h.started a ha
    exact ⟨e, List.mem_append_left _ he, row, htx, hrow.trans hl⟩

theorem History.consumed_step (h : History calls draw d l) {tx : Tx} (hr : tx.run d = some d') :
    ∀ e ∈ l ++ [⟨i, tx, d⟩], ∀ p, e.tx = .finish p → ∃ o ∈ d'.operations, o.operationId = p.operationId ∧ o.consumed = true := by
  refine forall_mem_snoc (fun e he p hp => ?_) fun p hp => ?_
  · obtain ⟨o, ho, hid, hc⟩ := h.consumed e he p hp
    obtain ⟨o', ho', hl⟩ := (Tx.operations_step hr).forward o ho
    exact ⟨o', ho', hl.1.trans hid, hl.2.2.2.2.2.2.2 hc⟩
  · obtain rfl : tx = .finish p := hp
    have hdoes := Finish.run_does hr
    obtain ⟨o, ho, hq⟩ := hdoes.selected
    rw [hdoes.operations]
    exact ⟨_, mem_update.mpr ⟨o, ho, .inl ⟨hq, rfl⟩⟩, hq.1, rfl⟩

theorem History.once_step (h : History calls draw d l) {tx : Tx} (hr : tx.run d = some d') :
    (l ++ [(⟨i, tx, d⟩ : Transactions.Entry ι Db Tx)]).Pairwise fun e f => ∀ p q, e.tx = .finish p → f.tx = .finish q → p.operationId ≠ q.operationId := by
  refine List.pairwise_append.mpr ⟨h.once, List.pairwise_singleton _ _, fun e he f hf p q hp hq heq => ?_⟩
  obtain rfl := List.mem_singleton.mp hf
  obtain rfl : tx = .finish q := hq
  obtain ⟨o, ho, hid, hc⟩ := h.consumed e he p hp
  obtain ⟨o', ho', hsel⟩ := (Finish.run_does hr).selected
  obtain rfl := h.operationIds.eq ho ho' (hid.trans (heq.trans hsel.1.symm))
  rw [hsel.2.2.2.2.1] at hc
  cases hc

theorem History.step (h : History calls draw d l) {tx : Tx} (hs : Sends calls draw i d l tx)
    (hr : tx.run d = some d') : History calls draw d' (l ++ [⟨i, tx, d⟩]) := by
  refine
    { operationIds := Tx.operation_ids hr h.operationIds, inviteIds := Tx.invite_ids hr h.inviteIds
      entryIds := Tx.entry_ids hr h.entryIds, mailIds := Tx.mail_ids hr h.mailIds, kinds := h.kinds_step hr
      owned := h.owned_step hr, issued := h.issued_step hr, named := h.named_step hr, attempts := h.attempts_step hr
      few := h.few_step, held := h.held_step hs hr, started := h.started_step hr, consumed := h.consumed_step hr
      once := h.once_step hr, sends := ?_, sent := ?_ }
  · refine forall_mem_snoc (fun e he => ?_) ⟨l, List.prefix_append _ _, hs⟩
    obtain ⟨l', hl, hsends⟩ := h.sends e he
    exact ⟨l', hl.trans (List.prefix_append _ _), hsends⟩
  · intro s hm
    rcases Tx.sent_step hr hm with hm | rfl
    · obtain ⟨hhash, j, hj⟩ := h.sent s hm
      exact ⟨hhash, j, hj.mono⟩
    · obtain ⟨hhash, hj⟩ := hs
      exact ⟨hhash, i, hj.mono⟩

theorem History.drift (h : History calls draw d l) (hd : invitations.drift d d') : History calls draw d' l := by
  obtain ⟨-, ho, hm, hsent, ⟨verified, hw⟩, gone, hi⟩ := hd
  refine
    { operationIds := ho ▸ h.operationIds, inviteIds := hi ▸ h.inviteIds.map fun _ _ => rfl
      entryIds := hw ▸ h.entryIds.map fun _ _ => rfl, mailIds := hm ▸ h.mailIds, kinds := hm ▸ h.kinds, owned := ?_, issued := ?_
      named := ?_, attempts := hm ▸ h.attempts, few := h.few, held := hm ▸ h.held, started := ho ▸ h.started
      consumed := ho ▸ h.consumed, once := h.once, sends := h.sends, sent := hsent ▸ h.sent }
  · rw [hm, hw]
    intro m hmem
    obtain ⟨w, hmw, hid⟩ := h.owned m hmem
    exact ⟨_, List.mem_map_of_mem hmw, hid⟩
  · rw [hm, hi]
    intro m hmem
    obtain ⟨x, hx, hhash⟩ := h.issued m hmem
    exact ⟨_, List.mem_map_of_mem hx, hhash⟩
  · rw [hm, hw, hi]
    intro m hmem w' hw' hid
    obtain ⟨w, hmw, rfl⟩ := List.mem_map.mp hw'
    rcases h.named m hmem w hmw hid with hn | hn
    · exact .inl hn
    · refine .inr fun j hj hhash => ?_
      obtain ⟨x, hx, rfl⟩ := List.mem_map.mp hj
      simp only [hn x hx hhash, Bool.true_or]

variable (calls draw) in
/-- Every caller sends what its request makes of what it has read, drawn and claimed. -/
def inviting : Discipline ι Db Tx where
  inv := History calls draw
  sent i tx d l := Sends calls draw i d l tx
  noted i tx d l := Sends calls draw i d l tx

theorem Sends.step {t tx : Tx} {j : ι} (h : Sends calls draw i d l t) (hr : tx.run d = some d') :
    Sends calls draw i d' (l ++ [⟨j, tx, d⟩]) t := by
  cases t with
  | finish p =>
    obtain ⟨hsession, o, ho, hid, request, input, passkey, counter, backupState, hcall, hinput, hp, hrev, hauth⟩ := h
    obtain ⟨o', ho', hl⟩ := (Tx.operations_step hr).forward o ho
    refine ⟨hsession, o', ho', hl.1.trans hid, request, input, passkey, counter, backupState, hcall, hinput.trans hl.1.symm, hp, hrev, ?_⟩
    rw [hl.2.2.2.2.1]
    exact hauth
  | claim id now lease =>
    refine ⟨h.1, ?_⟩
    rw [Db.clock, Tx.around_step hr]
    exact h.2
  | settle p =>
    obtain ⟨tokenHash, hc⟩ := h
    exact ⟨tokenHash, hc.mono⟩
  | send s => exact ⟨h.1, h.2.mono⟩
  | _ => exact h

theorem Sends.drift {t : Tx} (h : Sends calls draw i d l t) (hd : invitations.drift d d') : Sends calls draw i d' l t := by
  cases t with
  | finish p => exact ⟨h.1, hd.2.1.symm ▸ h.2⟩
  | claim id now lease => exact ⟨h.1, Nat.le_trans h.2 hd.1⟩
  | _ => exact h

theorem inviting_keeps : Keeps invitations (inviting calls draw) :=
  ⟨⟨fun _ _ _ _ _ h hs hr _ => h.step (hs.elim (fun h => h) fun h => h) hr, fun _ _ _ h hd _ => h.drift hd⟩,
    fun _ _ => ⟨fun _ _ _ _ _ _ _ hr h => h.step hr, fun _ _ _ _ hd h => h.drift hd⟩⟩

theorem kept_claimed (i : ι) (id lease tokenHash : String) :
    Kept invitations (inviting calls draw) fun _ l => Claimed i id lease tokenHash l :=
  ⟨fun _ _ _ _ _ _ _ _ h => h.mono, fun _ _ _ _ _ h => h⟩

theorem kept_operation (o : OperationRow) :
    Kept invitations (inviting calls draw) fun d _ => ∃ o' ∈ d.operations, o.Later o' := by
  refine ⟨fun _ _ _ _ _ _ _ hr h => ?_, fun _ _ _ _ hd h => hd.2.1.symm ▸ h⟩
  obtain ⟨a, ha, hl⟩ := h
  obtain ⟨b, hb, hl'⟩ := (Tx.operations_step hr).forward a ha
  exact ⟨b, hb, hl.trans hl'⟩

/-! ## The programs -/

/-- A commit that the caller may send anyway. -/
theorem gives_commit {tx : Tx} (h : ∀ d l, Sends calls draw i d l tx) :
    Ensures (world invitations) (contract invitations (inviting calls draw)) i (fun _ => True) (commit tx : Route Unit)
      fun _ _ => True := by
  have hcommit : Ensures (world invitations) (contract invitations (inviting calls draw)) i (fun _ => True)
      (commit tx : Route Unit) fun _ s => Applied i tx s.log := spec_commit inviting_keeps fun s _ _ => h s.db s.log
  exact hcommit.post fun _ _ _ _ => trivial

theorem gives_start {request : Request} {input : Option (Option WaitlistInput)} (hcall : calls i = .start request input) :
    Ensures (world invitations) (contract invitations (inviting calls draw)) i (fun _ => True) (start request input (draw i))
      fun _ _ => True := by
  unfold start
  refine (Vault.gives_fails _ _).andThen fun _ _ => (Vault.gives_demand _ _).andThen fun cookie hcookie => ?_
  refine spec_any.bind fun d => (Vault.gives_demand _ _).andThen fun admin _ => ?_
  refine Ensures.bind (Q := fun _ _ => True) ?_ fun target => ?_
  · cases input with
    | none => exact .pure fun _ _ _ => trivial
    | some input =>
      refine (Vault.gives_fails _ _).andThen fun _ _ => (Vault.gives_demand _ _).andThen fun input _ => ?_
      exact spec_any.bind fun d => (Vault.gives_fails _ _).andThen fun _ _ => .pure fun _ _ _ => trivial
  · refine spec_any.bind fun d => (Vault.gives_demand _ _).andThen fun policy _ => ?_
    refine spec_any.bind fun now => gives_commit fun _ _ => ⟨?_, rfl⟩
    rw [hcall, Call.session, hcookie]
    rfl

/-- A reading of the clock is not ahead of it. -/
theorem gives_clock : Ensures (world invitations) (contract invitations (inviting calls draw)) i (fun _ => True) (read : Route Db)
    fun d s => True ∧ d.clock ≤ s.db.clock := by
  have hkept : ∀ n : Nat, Kept (ι := ι) invitations (inviting calls draw) fun d' _ => n ≤ d'.clock := by
    refine fun n => ⟨fun _ _ _ _ _ _ _ hr h => ?_, fun _ _ _ _ hd h => Nat.le_trans h hd.1⟩
    rw [Db.clock, Tx.around_step hr]
    exact h
  exact spec_read (.const True) (R := fun (d d' : Db) _ => d.clock ≤ d'.clock) (fun d => hkept d.clock) fun _ _ _ => Nat.le_refl _

/-- What is leased under a caller's secret, the caller has claimed. -/
theorem gives_leased (hdraw : ∀ i j m n, draw i m = draw j n → i = j) (n : Nat) :
    Ensures (world invitations) (contract invitations (inviting calls draw)) i (fun _ => True) (read : Route Db)
      fun d s => True ∧ ∀ m ∈ d.mail, m.state.lease = some (draw i n) → Claimed i m.id (draw i n) m.tokenHash s.log := by
  have hkept : ∀ d : Db, Kept (ι := ι) invitations (inviting calls draw) fun _ l =>
      ∀ m ∈ d.mail, m.state.lease = some (draw i n) → Claimed i m.id (draw i n) m.tokenHash l :=
    fun d => ⟨fun _ _ _ _ _ _ _ _ h m hm hl => (h m hm hl).mono, fun _ _ _ _ _ h => h⟩
  refine spec_read (.const True)
    (R := fun d _ l => ∀ m ∈ d.mail, m.state.lease = some (draw i n) → Claimed i m.id (draw i n) m.tokenHash l)
    hkept fun d l h m hm hl => ?_
  obtain ⟨j, hj⟩ := h.held m hm _ hl
  have hsame : i = j := by
    obtain ⟨now, before, he, -⟩ := hj
    obtain ⟨l', -, ⟨k, hk⟩, -⟩ := h.sends _ he
    exact hdraw i j n k hk
  rw [hsame]
  exact hsame ▸ hj

theorem gives_send {m : MailRow} {lease : String} (email : String) :
    Ensures (world invitations) (contract invitations (inviting calls draw)) i (fun s => Claimed i m.id lease m.tokenHash s.log)
      (send m email lease) fun _ s => Claimed i m.id lease m.tokenHash s.log := by
  unfold send
  cases Profile.token m.id with
  | none => exact .pure fun _ _ h => h
  | some token =>
    dsimp only
    by_cases hhash : Profile.hash token ≠ m.tokenHash
    · rw [if_pos hhash]
      exact .pure fun _ _ h => h
    · rw [if_neg hhash]
      have hnote : Ensures (world invitations) (contract invitations (inviting calls draw)) i
          (fun s => Claimed i m.id lease m.tokenHash s.log)
          (note (.send { mailId := m.id, lease, email, tokenHash := m.tokenHash, token }) : Route Unit)
          fun _ s => Applied i _ s.log := spec_note inviting_keeps fun s _ h => ⟨Decidable.not_not.mp hhash, h⟩
      have hframe := hnote.frame (kept_claimed i m.id lease m.tokenHash).lasting
      exact (hframe.weaken fun _ _ h => ⟨h, h⟩).bind fun _ => .pure fun _ _ h => h.2

/-- Who draws a lease holds what it leases: what is sent and settled under it was claimed. -/
theorem gives_deliver (hdraw : ∀ i j m n, draw i m = draw j n → i = j) (job : String) (n : Nat) :
    Ensures (world invitations) (contract invitations (inviting calls draw)) i (fun _ => True) (deliver job (draw i n))
      fun _ _ => True := by
  unfold deliver
  refine gives_clock.bind fun now => ?_
  have hclaim : Ensures (world invitations) (contract invitations (inviting calls draw)) i (fun s => True ∧ now.clock ≤ s.db.clock)
      (perform (.claim job now.clock (draw i n)) : Route Db) fun before s => ⟨i, .claim job now.clock (draw i n), before⟩ ∈ s.log :=
    spec_perform inviting_keeps fun s _ h => ⟨⟨n, rfl⟩, h.2⟩
  refine hclaim.bind fun before => ?_
  by_cases hany : ∃ m ∈ before.mail, claims job now.clock before m
  swap
  · rw [if_neg hany]
    exact .pure fun _ _ _ => trivial
  rw [if_pos hany]
  refine ((gives_leased hdraw n).weaken fun _ _ _ => trivial).bind fun d => ?_
  have hall : Kept (ι := ι) invitations (inviting calls draw) fun _ l =>
      ∀ m ∈ d.mail, m.state.lease = some (draw i n) → Claimed i m.id (draw i n) m.tokenHash l :=
    ⟨fun _ _ _ _ _ _ _ _ h m hm hl => (h m hm hl).mono, fun _ _ _ _ _ h => h⟩
  have hlasting := (Kept.const True).and hall
  refine Ensures.carry hlasting.lasting (Vault.gives_demand _ _) fun m hm => ?_
  have hfound := List.find?_some hm
  simp only [decide_eq_true_eq] at hfound
  obtain ⟨rfl, hl⟩ := hfound
  refine Ensures.carry hlasting.lasting (Vault.gives_demand _ _) fun w _ => ?_
  refine ((gives_send w.email).weaken fun s _ h => h.2 m (List.mem_of_find?_eq_some hm) hl).bind fun result => ?_
  have hsettle : ∀ outcome, Ensures (world invitations) (contract invitations (inviting calls draw)) i
      (fun s => Claimed i m.id (draw i n) m.tokenHash s.log) (commit (.settle ⟨m.id, draw i n, outcome⟩) : Route Unit)
      fun _ _ => True := by
    intro outcome
    have hcommit : Ensures (world invitations) (contract invitations (inviting calls draw)) i
        (fun s => Claimed i m.id (draw i n) m.tokenHash s.log) (commit (.settle ⟨m.id, draw i n, outcome⟩) : Route Unit)
        fun _ s => Applied i _ s.log := spec_commit inviting_keeps fun s _ h => ⟨m.tokenHash, h⟩
    exact hcommit.post fun _ _ _ _ => trivial
  cases result with
  | none => exact hsettle _
  | some messageId => exact hsettle _

theorem gives_deliverAll (hdraw : ∀ i j m n, draw i m = draw j n → i = j) (rows : List MailRow) (n : Nat) :
    Ensures (world invitations) (contract invitations (inviting calls draw)) i (fun _ => True) (deliverAll (draw i) n rows)
      fun _ _ => True := by
  induction rows generalizing n with
  | nil => exact .pure fun _ _ _ => trivial
  | cons m rest ih => exact (gives_deliver hdraw m.id n).bind fun _ => ih (n + 1)

theorem gives_runDue (hdraw : ∀ i j m n, draw i m = draw j n → i = j) :
    Ensures (world invitations) (contract invitations (inviting calls draw)) i (fun _ => True) (runDue (draw i))
      fun _ _ => True := by
  unfold runDue
  by_cases hready : Profile.ready = false
  · rw [if_pos hready]
    exact .pure fun _ _ _ => trivial
  · rw [if_neg hready]
    refine (gives_commit (by intro _ _; trivial)).bind fun _ => (gives_commit (by intro _ _; trivial)).bind fun _ => ?_
    exact spec_any.bind fun d => (gives_deliverAll hdraw (due d) 0).bind fun _ => gives_commit (by intro _ _; trivial)

theorem gives_finish (hdraw : ∀ i j m n, draw i m = draw j n → i = j) {request : Request} {input : FinishInput}
    (hcall : calls i = .finish request input) :
    Ensures (world invitations) (contract invitations (inviting calls draw)) i (fun _ => True) (finish request input (draw i))
      fun _ _ => True := by
  unfold finish
  refine (Vault.gives_fails _ _).andThen fun _ _ => (Vault.gives_demand _ _).andThen fun cookie hcookie => ?_
  refine (Vault.gives_fails _ _).andThen fun _ _ => ?_
  dsimp only
  refine spec_any.bind fun d => (Vault.gives_demand _ _).andThen fun admin _ => ?_
  have hread : Ensures (world invitations) (contract invitations (inviting calls draw)) i (fun _ => True) (read : Route Db)
      fun d s => True ∧ ∀ o ∈ d.operations, ∃ o' ∈ s.db.operations, o.Later o' :=
    spec_read (.const True) (R := fun (d d' : Db) _ => ∀ o ∈ d.operations, ∃ o' ∈ d'.operations, o.Later o')
      (fun d => .all fun o => .imp fun _ => kept_operation o) fun d l _ o ho => ⟨o, ho, .refl o⟩
  refine hread.bind fun d => ?_
  have hlater : ∀ o : OperationRow, Kept (ι := ι) invitations (inviting calls draw) fun d' _ => ∃ o' ∈ d'.operations, o.Later o' :=
    fun o => kept_operation o
  have hall := (Kept.const True).and (Kept.all fun o => Kept.imp (c := o ∈ d.operations) fun _ => hlater o)
  refine Ensures.carry hall.lasting (Vault.gives_demand _ _) fun row hrow => ?_
  have hid : row.operationId = input.operationId := by
    have hfound := List.find?_some hrow
    simp only [decide_eq_true_eq] at hfound
    exact hfound.1
  refine Ensures.weaken (P := fun s => ∃ o ∈ s.db.operations, row.Later o) ?_ fun _ _ h => h.2 row (List.mem_of_find?_eq_some hrow)
  have hkept := (hlater row).lasting (ε := Failure)
  refine Ensures.carry hkept (A := fun _ => True) spec_any fun now _ => ?_
  cases hauth : (Profile.authenticate row.challenge admin.passkey input.response).filter (·.2.2) with
  | none => exact ((gives_commit (by intro _ _; trivial)).weaken fun _ _ _ => trivial).bind fun _ => .throw
  | some proof =>
    obtain ⟨counter, backupState, verified⟩ := proof
    obtain ⟨hauth, hverified⟩ := Option.filter_eq_some_iff.mp hauth
    obtain rfl : verified = true := hverified
    refine Ensures.carry hkept (Vault.gives_fails _ _) fun _ _ => ?_
    refine Ensures.carry hkept (A := fun _ => True) ?_ fun target _ => ?_
    · cases row.waitlistId with
      | none => exact .pure fun _ _ _ => trivial
      | some entry =>
        cases row.action with
        | none => exact .pure fun _ _ _ => trivial
        | some action =>
          refine (Vault.gives_fails _ _).andThen fun _ _ => spec_any.bind fun d => ?_
          exact (Vault.gives_demand _ _).andThen fun target _ => .pure fun _ _ _ => trivial
    refine Ensures.carry hkept (Vault.gives_demand _ _) fun (purpose, invitation) _ => ?_
    refine Ensures.carry hkept (Vault.gives_fails _ _) fun _ _ => ?_
    have hcommit : ∀ p : Finish, p.operationId = input.operationId → p.credentialId = admin.passkey.credentialId →
        p.browserHash = Profile.hash cookie → p.revision = admin.passkey.revision →
        Ensures (world invitations) (contract invitations (inviting calls draw)) i
          (fun s => ∃ o ∈ s.db.operations, row.Later o) (commit (.finish p) : Route Unit) fun _ s => Applied i (.finish p) s.log := by
      intro p hoperation hcredential hbrowser hrevision
      refine spec_commit inviting_keeps fun s _ h => ?_
      obtain ⟨o, ho, hl⟩ := h
      refine ⟨?_, o, ho, hl.1.trans (hid.trans hoperation.symm), request, input, admin.passkey, counter, backupState, hcall,
        hid.symm.trans hl.1.symm, hcredential.symm, hrevision.symm, ?_⟩
      · rw [hcall, Call.session, hcookie, hbrowser]
        rfl
      · rw [hl.2.2.2.2.1]
        exact hauth
    refine (hcommit _ rfl rfl rfl rfl).attempt.bind fun result => ?_
    by_cases hok : result.isOk = false
    · rw [if_pos hok]
      refine (spec_any.weaken fun _ _ _ => trivial).bind fun d => (Vault.gives_fails _ _).andThen fun _ _ => spec_any.bind fun d => ?_
      refine Ensures.bind (Q := fun _ _ => True) ?_ fun changed => (Vault.gives_fails _ _).andThen fun _ _ => .throw
      cases row.waitlistId with
      | none => exact .pure fun _ _ _ => trivial
      | some entry =>
        cases row.action with
        | none => exact .pure fun _ _ _ => trivial
        | some action => exact spec_any.bind fun d => .pure fun _ _ _ => trivial
    · rw [if_neg hok]
      refine (spec_any.weaken fun _ _ _ => trivial).bind fun d => (Vault.gives_demand _ _).andThen fun _ _ => ?_
      cases purpose with
      | byHand => exact .pure fun _ _ _ => trivial
      | invite entry previous job => exact gives_deliver hdraw job 2
      | resend entry job => exact gives_deliver hdraw job 2

theorem gives_enrollment (inviteHash : String) :
    Ensures (world invitations) (contract invitations (inviting calls draw)) i (fun _ => True) (enrollment inviteHash)
      fun _ _ => True :=
  spec_any.bind fun d => (Vault.gives_fails _ _).andThen fun _ _ => spec_any.bind fun now => gives_commit (by intro _ _; trivial)

theorem program_valid (hdraw : ∀ i j m n, draw i m = draw j n → i = j) (i : ι) :
    Ensures (world invitations) (contract invitations (inviting calls draw)) i (fun _ => True) ((calls i).program (draw i))
      fun _ _ => True := by
  unfold Call.program
  cases hcall : calls i with
  | start request input => exact gives_start hcall
  | finish request input => exact gives_finish hdraw hcall
  | cron => exact gives_runDue hdraw
  | enrol inviteHash => exact gives_enrollment inviteHash
  | join email locale maximum => exact spec_any.bind fun now => gives_commit (by intro _ _; trivial)

end

end Mikaki.Enrollment
