import Mikaki.Lib.Rows
import Mikaki.Vault.Http

/-!
# Invitations and their mail

An administrator approves an entry of the waiting list with a passkey: the
entry gets an invitation and a mail job. Deliveries lease the job, send the
token that the job's identity derives, and settle it; a sweep cancels what is
obsolete. A worker's clock is the one of the database at some earlier step.
-/

namespace Mikaki.Enrollment

open Concurrent Concurrent.Prog Rows Transactions
open Mikaki.Vault (Accounts Failure demand)

/-! ## Tables -/

/-- `account_role`, where the role is `admin`. -/
structure RoleRow where
  accountId : String
  active : Bool
  deriving DecidableEq

/-- `passkey_credential`. -/
structure PasskeyRow where
  credentialId : String
  publicKey : String
  userHandle : String
  counter : Nat
  backupEligible : Bool
  backupState : Bool
  revision : Nat
  deriving DecidableEq

/-- `enrollment_policy`. -/
structure PolicyRow where
  inviteTtlSeconds : Nat
  managementTtlSeconds : Nat
  deriving DecidableEq

inductive Action where
  | invite
  | resend
  deriving DecidableEq

/-- `admin_invitation_transaction`. -/
structure OperationRow where
  operationId : String
  accountId : String
  credentialId : String
  browserHash : String
  challenge : String
  expiresAt : Nat
  waitlistId : Option String
  action : Option Action
  consumed : Bool
  failures : Nat
  deriving DecidableEq

inductive InviteKind where
  | bootstrap
  | normal
  deriving DecidableEq

/-- `enrollment_invite`. -/
structure InviteRow where
  inviteHash : String
  kind : InviteKind
  issuer : Option String
  issuedAt : Nat
  expiresAt : Nat
  consumedAt : Option Nat
  revoked : Bool
  deriving DecidableEq

/-- Unconsumed, unrevoked and unexpired. -/
def InviteRow.usable (now : Nat) (i : InviteRow) : Prop := i.consumedAt = none ∧ i.revoked = false ∧ i.expiresAt > now

instance (now : Nat) : DecidablePred (InviteRow.usable now) := fun _ => inferInstanceAs (Decidable (_ ∧ _))

/-- `enrollment_waitlist`. -/
structure EntryRow where
  id : String
  email : String
  locale : String
  createdAt : Nat
  verifiedAt : Option Nat
  confirmationHash : String
  confirmationExpiresAt : Nat
  confirmationSentAt : Nat
  inviteHash : Option String
  deriving DecidableEq

/-- Only a job that is being sent has a lease. -/
inductive MailState where
  | pending
  | sending (lease : String) (leaseUntil : Nat)
  | sent
  | failed
  | cancelled
  deriving DecidableEq

namespace MailState

/-- Pending or failed, or under a lease that has run out. -/
def free (now : Nat) : MailState → Bool
  | pending | failed => true
  | sending _ leaseUntil => leaseUntil ≤ now
  | _ => false

def isOpen : MailState → Bool
  | pending | failed | sending _ _ => true
  | _ => false

def settled : MailState → Bool
  | sent | failed => true
  | _ => false

def lease : MailState → Option String
  | sending lease _ => some lease
  | _ => none

end MailState

inductive MailKind where
  | confirmation
  | invitation
  deriving DecidableEq

/-- `enrollment_mail`. -/
structure MailRow where
  id : String
  waitlistId : String
  kind : MailKind
  tokenHash : String
  expiresAt : Nat
  createdAt : Nat
  state : MailState
  attempts : Nat
  nextAttemptAt : Nat
  lastAttemptAt : Option Nat
  messageId : Option String
  deriving DecidableEq

/-- A message that was handed to the mail service. -/
structure Sent where
  mailId : String
  lease : String
  email : String
  tokenHash : String
  token : String
  deriving DecidableEq

structure Db where
  around : Accounts
  roles : List RoleRow
  passkeys : List PasskeyRow
  policy : Option PolicyRow
  operations : List OperationRow
  invites : List InviteRow
  waitlist : List EntryRow
  mail : List MailRow
  sent : List Sent

namespace Db

/-- `unixepoch()`. -/
def clock (self : Db) : Nat := self.around.unixepoch

/-- The account is an active administrator. -/
def isAdmin (self : Db) (account : String) : Prop := ∃ r ∈ self.roles, r.accountId = account ∧ r.active = true

instance (self : Db) (account : String) : Decidable (self.isAdmin account) := List.decidableBEx _ _

/-- The invitation that the job announces is its entry's, and can be used. -/
def current (self : Db) (now : Nat) (m : MailRow) : Prop :=
  m.kind = .invitation ∧ ∃ w ∈ self.waitlist, w.id = m.waitlistId ∧ w.inviteHash = some m.tokenHash ∧
    ∃ i ∈ self.invites, i.inviteHash = m.tokenHash ∧ i.usable now

instance (self : Db) (now : Nat) : DecidablePred (self.current now) := fun _ => inferInstanceAs (Decidable (_ ∧ _))

end Db

/-! ## Finishing an operation -/

/-- What an operation is for: an invitation by hand, one for an entry of the waiting list, or another sending of its mail. -/
inductive Purpose where
  | byHand
  | invite (waitlistId : String) (previous : Option String) (job : String)
  | resend (waitlistId job : String)
  deriving DecidableEq

/-- The values bound to the batch of `finish`. -/
structure Finish where
  operationId : String
  accountId : String
  credentialId : String
  browserHash : String
  now : Nat
  counter : Nat
  backupState : Bool
  revision : Nat
  inviteHash : String
  purpose : Purpose

namespace Finish

def selects (self : Finish) (o : OperationRow) : Prop :=
  o.operationId = self.operationId ∧ o.accountId = self.accountId ∧ o.credentialId = self.credentialId ∧
    o.browserHash = self.browserHash ∧ o.consumed = false ∧ o.failures < 5 ∧ o.expiresAt > self.now

instance (self : Finish) : DecidablePred self.selects := fun _ => inferInstanceAs (Decidable (_ ∧ _))

def invitation (self : Finish) (ttl : Nat) : InviteRow :=
  { inviteHash := self.inviteHash, kind := .normal, issuer := some self.accountId, issuedAt := self.now
    expiresAt := self.now + ttl, consumedAt := none, revoked := false }

/-- The entry that gets the invitation: it names the previous one, which nobody has used or can use. -/
def replaces (self : Finish) (id : String) (previous : Option String) (invites : List InviteRow) (w : EntryRow) : Prop :=
  w.id = id ∧ w.inviteHash = previous ∧ (w.inviteHash = none ∨
    ∃ i ∈ invites, some i.inviteHash = w.inviteHash ∧ i.consumedAt = none ∧ (i.expiresAt ≤ self.now ∨ i.revoked = true))

instance (self : Finish) (id : String) (previous : Option String) (invites : List InviteRow) :
    DecidablePred (self.replaces id previous invites) := fun _ => inferInstanceAs (Decidable (_ ∧ _))

def job (self : Finish) (waitlistId id : String) (expiresAt : Nat) : MailRow :=
  { id, waitlistId, kind := .invitation, tokenHash := self.inviteHash, expiresAt, createdAt := self.now, state := .pending
    attempts := 0, nextAttemptAt := self.now, lastAttemptAt := none, messageId := none }

/-- The job that is sent once more. -/
def requeues (self : Finish) (waitlistId job : String) (d : Db) (m : MailRow) : Prop :=
  m.id = job ∧ m.state.settled = true ∧ (∀ last, m.lastAttemptAt = some last → last + 60 ≤ self.now) ∧
    ∃ w ∈ d.waitlist, w.id = waitlistId ∧ w.inviteHash = some m.tokenHash ∧
      ∃ i ∈ d.invites, i.inviteHash = m.tokenHash ∧ i.usable self.now

instance (self : Finish) (waitlistId job : String) (d : Db) : DecidablePred (self.requeues waitlistId job d) :=
  fun _ => inferInstanceAs (Decidable (_ ∧ _))

/-- A new invitation of an active administrator. -/
def issue (self : Finish) (d : Db) : Option (Nat × List InviteRow) := do
  let policy ← d.policy
  require (d.isAdmin self.accountId)
  require (∃ a ∈ d.around.accounts, a.accountId = self.accountId ∧ a.active = true)
  let invites ← insert InviteRow.inviteHash (fun i => i.inviteHash.length = 43 ∧ 0 < i.issuedAt ∧ i.issuedAt < i.expiresAt)
    (self.invitation policy.inviteTtlSeconds) d.invites
  return (self.now + policy.inviteTtlSeconds, invites)

/-- The batch. -/
def run (self : Finish) (d : Db) : Option Db := do
  require (∃ o ∈ d.operations, self.selects o)
  require (∃ p ∈ d.passkeys, p.credentialId = self.credentialId ∧ p.revision = self.revision)
  require (d.around.authorised self.accountId self.credentialId self.browserHash d.clock ∧ d.isAdmin self.accountId)
  let operations := update self.selects (fun o => { o with consumed := true }) d.operations
  let passkeys := update (fun p => p.credentialId = self.credentialId ∧ p.revision = self.revision)
    (fun p => { p with counter := self.counter, backupState := self.backupState, revision := p.revision + 1 }) d.passkeys
  match self.purpose with
  | .byHand => do
    let (_, invites) ← self.issue d
    return { d with operations, passkeys, invites }
  | .invite id previous job => do
    let (expiresAt, invites) ← self.issue d
    require (∃ w ∈ d.waitlist, self.replaces id previous invites w)
    let waitlist := update (self.replaces id previous invites) (fun w => { w with inviteHash := some self.inviteHash }) d.waitlist
    let invites := update (fun i => some i.inviteHash = previous ∧ i.consumedAt = none) (fun i => { i with revoked := true }) invites
    require (∀ m ∈ d.mail, m.kind = .invitation → m.tokenHash ≠ self.inviteHash)
    let mail ← insert MailRow.id (fun m => m.id.length = 43 ∧ m.tokenHash.length = 43) (self.job id job expiresAt) d.mail
    return { d with operations, passkeys, invites, waitlist, mail }
  | .resend id job => do
    require (∃ m ∈ d.mail, self.requeues id job d m)
    return { d with
      operations, passkeys
      mail := update (self.requeues id job d)
        (fun m => { m with state := .pending, attempts := 0, nextAttemptAt := self.now, lastAttemptAt := some self.now, messageId := none })
        d.mail }

end Finish

/-! ## Mail -/

/-- The job that a delivery leases. -/
def claims (id : String) (now : Nat) (d : Db) (m : MailRow) : Prop :=
  m.id = id ∧ m.kind = .invitation ∧ m.attempts < 5 ∧ m.expiresAt > now ∧ m.nextAttemptAt ≤ now ∧ m.state.free now = true ∧
    d.current now m

instance (id : String) (now : Nat) (d : Db) : DecidablePred (claims id now d) := fun _ => inferInstanceAs (Decidable (_ ∧ _))

def claim (id : String) (now : Nat) (lease : String) (d : Db) : Db :=
  { d with
    mail := update (claims id now d)
      (fun m => { m with state := .sending lease (now + 120), attempts := m.attempts + 1, lastAttemptAt := some now }) d.mail }

/-- What is written where a delivery is settled: the message's identity, or when to try again. -/
structure Settlement where
  id : String
  lease : String
  outcome : Except Nat String

def Settlement.selects (self : Settlement) (m : MailRow) : Prop := m.id = self.id ∧ m.state.lease = some self.lease

instance (self : Settlement) : DecidablePred self.selects := fun _ => inferInstanceAs (Decidable (_ ∧ _))

def Settlement.apply (self : Settlement) (m : MailRow) : MailRow :=
  match self.outcome with
  | .ok messageId => { m with state := .sent, messageId := some messageId }
  | .error nextAttemptAt => { m with state := .failed, nextAttemptAt }

/-- Jobs that announce nothing that can be used. -/
def cancelObsolete (d : Db) : Db :=
  { d with
    mail := update (fun m => m.state.isOpen = true ∧ (m.kind = .confirmation ∨ m.expiresAt ≤ d.clock ∨ ¬d.current d.clock m))
      (fun m => { m with state := .cancelled }) d.mail }

/-- Jobs whose last attempt has ended without a settlement. -/
def failStuck (d : Db) : Db :=
  { d with
    mail := update (fun m => m.state.lease.isSome = true ∧ m.attempts ≥ 5 ∧ m.state.free d.clock = true)
      (fun m => { m with state := .failed }) d.mail }

/-- An entry that is old: never confirmed and never invited, or registered long ago. -/
def outdated (d : Db) (w : EntryRow) : Prop :=
  (w.verifiedAt = none ∧ w.inviteHash = none ∧
      (if w.confirmationExpiresAt = 0 then w.createdAt else w.confirmationSentAt) + 2592000 < d.clock) ∨
    ∃ i ∈ d.invites, some i.inviteHash = w.inviteHash ∧ ∃ t, i.consumedAt = some t ∧ t + 2592000 < d.clock

instance (d : Db) : DecidablePred (outdated d) := fun w => by
  unfold outdated
  have : DecidablePred fun i : InviteRow => some i.inviteHash = w.inviteHash ∧ ∃ t, i.consumedAt = some t ∧ t + 2592000 < d.clock :=
    fun i => by cases i.consumedAt <;> simp <;> infer_instance
  infer_instance

/-- The batch that ends a run: what has expired is cancelled, and old entries go with their jobs. -/
def sweep (d : Db) : Db :=
  let gone := ((d.waitlist.filter fun w => outdated d w).take 100).map EntryRow.id
  { d with
    mail := (update (fun m => m.expiresAt ≤ d.clock ∧ m.state.isOpen = true) (fun m => { m with state := .cancelled }) d.mail).filter
      fun m => m.waitlistId ∉ gone
    waitlist := d.waitlist.filter fun w => w.id ∉ gone }

/-! ## Other writes -/

/-- An enrollment consumes its invitation and verifies the entry that names it. What else its batch writes and guards is left
out. -/
def enrol (inviteHash : String) (now : Nat) (d : Db) : Option Db := do
  require (∃ i ∈ d.invites, i.inviteHash = inviteHash ∧ i.usable now ∧ i.issuedAt ≤ now)
  return { d with
    invites := update (fun i => i.inviteHash = inviteHash ∧ i.usable now) (fun i => { i with consumedAt := some now }) d.invites
    waitlist := update (fun w => w.inviteHash = some inviteHash) (fun w => { w with verifiedAt := w.verifiedAt.or (some now) })
      d.waitlist }

/-- A request to be put on the waiting list, once for each address. -/
def join (entry : EntryRow) (maximum : Nat) (d : Db) : Option Db :=
  if d.waitlist.length < maximum ∧ ∀ w ∈ d.waitlist, w.email.toLower ≠ entry.email.toLower then do
    let waitlist ← insert EntryRow.id (fun w => w.id.length = 43) entry d.waitlist
    return { d with waitlist }
  else some d

inductive Tx where
  | start (row : OperationRow)
  | fail (operationId : String)
  | finish (p : Finish)
  | claim (id : String) (now : Nat) (lease : String)
  | settle (p : Settlement)
  | send (s : Sent)
  | cancelObsolete
  | failStuck
  | sweep
  | enrol (inviteHash : String) (now : Nat)
  | join (entry : EntryRow) (maximum : Nat)

def Tx.run : Tx → Db → Option Db
  | start row, d => do
    let operations ← insert OperationRow.operationId (fun o => o.operationId.length = 43 ∧ o.challenge.length = 43 ∧ 0 < o.expiresAt)
      row d.operations
    return { d with operations }
  | fail operationId, d =>
    some { d with
      operations := update (fun o => o.operationId = operationId ∧ o.consumed = false ∧ o.failures < 5)
        (fun o => { o with failures := o.failures + 1 }) d.operations }
  | finish p, d => p.run d
  | claim id now lease, d => some (Enrollment.claim id now lease d)
  | settle p, d => some { d with mail := update p.selects p.apply d.mail }
  | send s, d => some { d with sent := d.sent ++ [s] }
  | cancelObsolete, d => some (Enrollment.cancelObsolete d)
  | failStuck, d => some (Enrollment.failStuck d)
  | sweep, d => some (Enrollment.sweep d)
  | enrol inviteHash now, d => Enrollment.enrol inviteHash now d
  | join entry maximum, d => Enrollment.join entry maximum d

/-- The clock goes on, sessions, roles and passkeys change, entries are confirmed and invitations revoked; nobody else writes
operations and jobs. -/
def invitations : System Db Tx where
  run := Tx.run
  drift d d' := d.clock ≤ d'.clock ∧ d'.operations = d.operations ∧ d'.mail = d.mail ∧ d'.sent = d.sent ∧
    (∃ verified : EntryRow → Option Nat, d'.waitlist = d.waitlist.map fun w => { w with verifiedAt := verified w }) ∧
    ∃ gone : InviteRow → Bool, d'.invites = d.invites.map fun i => { i with revoked := i.revoked || gone i }

abbrev Route := Calls Failure Db Tx

/-! ## Requests -/

/-- The hash, the keyed token of a job, the check of an assertion, and the mail service. -/
class Profile where
  hash : String → String
  validTx : String → Bool
  token : String → Option String
  /-- The mail service is configured. -/
  ready : Bool
  /-- Of a challenge, a credential and a response: the counter, the backup state and whether the user was verified. -/
  authenticate : String → PasskeyRow → String → Option (Nat × Bool × Bool)
  /-- The identity of the message that is sent under a lease, where the service has answered in time. -/
  answer : String → Option String

/-- A request of an administrator's browser. -/
structure Request where
  originMatches : Bool
  cookie : Option String
  deriving DecidableEq

structure WaitlistInput where
  waitlistId : String
  action : Action
  deriving DecidableEq

structure FinishInput where
  operationId : String
  response : String
  deriving DecidableEq

structure Admin where
  accountId : String
  passkey : PasskeyRow
  deriving DecidableEq

namespace Db

/-- The query of `admin`. -/
def admin (self : Db) (secretHash : String) : Option Admin :=
  (self.around.owner secretHash self.clock).bind fun o =>
    if self.isAdmin o.accountId then
      (self.passkeys.find? fun p => p.credentialId = o.credentialId).map fun p => ⟨o.accountId, p⟩
    else none

structure Target where
  inviteHash : Option String
  mailId : Option String

/-- The query of `target`. -/
def target (self : Db) (id : String) (action : Action) : Option Target :=
  (lookup EntryRow.id id self.waitlist).bind fun w =>
    let invite := w.inviteHash.bind fun h => lookup InviteRow.inviteHash h self.invites
    let mail := w.inviteHash.bind fun h => self.mail.find? fun m => m.tokenHash = h ∧ m.kind = .invitation
    let open_ := invite.any fun i => i.consumedAt = none
    let dead := invite.any fun i => i.expiresAt ≤ self.clock || i.revoked
    let rested := mail.any fun m => m.state.settled && m.lastAttemptAt.all (· + 60 ≤ self.clock)
    if (action = .invite ∧ (w.inviteHash = none ∨ (open_ = true ∧ dead = true))) ∨
        (action = .resend ∧ open_ = true ∧ dead = false ∧ rested = true) then
      some ⟨w.inviteHash, mail.map MailRow.id⟩
    else none

/-- The operation that a session may finish. -/
def operation (self : Db) (id account credential browserHash : String) : Option OperationRow :=
  self.operations.find? fun o => o.operationId = id ∧ o.accountId = account ∧ o.credentialId = credential ∧
    o.browserHash = browserHash ∧ o.consumed = false ∧ o.failures < 5 ∧ o.expiresAt > self.clock

end Db

section
variable [Profile]

/-- `start`, by hand or for an entry of the waiting list. -/
def start (request : Request) (input : Option (Option WaitlistInput)) (draw : Nat → String) : Route Unit := do
  fails (request.originMatches = false) (.response 403 "")
  let cookie ← demand request.cookie (.response 403 "")
  let d ← read
  let admin ← demand (d.admin (Profile.hash cookie)) (.response 403 "")
  let target ← (match input with
    | none => pure none
    | some input => do
      fails (Profile.ready = false) (.response 503 "")
      let input ← demand (input.filter fun i => Profile.validTx i.waitlistId) (.response 400 "")
      let d ← read
      fails (d.target input.waitlistId input.action).isNone (.response 409 "")
      return some input : Route (Option WaitlistInput))
  let d ← read
  let policy ← demand d.policy .server
  let now ← read
  commit (.start
    { operationId := draw 0, accountId := admin.accountId, credentialId := admin.passkey.credentialId
      browserHash := Profile.hash cookie, challenge := draw 1, expiresAt := now.clock + policy.managementTtlSeconds
      waitlistId := target.map WaitlistInput.waitlistId, action := target.map WaitlistInput.action, consumed := false, failures := 0 })

/-- `send`: the token is the one whose hash the job has. -/
def send (m : MailRow) (email lease : String) : Route (Option String) :=
  match Profile.token m.id with
  | none => pure none
  | some token =>
    if Profile.hash token ≠ m.tokenHash then pure none
    else do
      note (.send { mailId := m.id, lease, email, tokenHash := m.tokenHash, token })
      return (Profile.answer lease).filter fun id => id ≠ "" ∧ id.utf8ByteSize ≤ 256

/-- `deliver`, with the lease that it draws. -/
def deliver (id lease : String) : Route Unit := do
  let now ← read
  let before ← perform (.claim id now.clock lease)
  if ∃ m ∈ before.mail, claims id now.clock before m then do
    let d ← read
    let m ← demand (d.mail.find? fun m => m.id = id ∧ m.state.lease = some lease) .server
    let w ← demand (lookup EntryRow.id m.waitlistId d.waitlist) .server
    match ← send m w.email lease with
    | some messageId => commit (.settle ⟨id, lease, .ok messageId⟩)
    | none => commit (.settle ⟨id, lease, .error (now.clock + 60 * 2 ^ min m.attempts 5)⟩)
  else pure ()

/-- The purpose of an operation as it was started, and the invitation that is issued or sent again. -/
def purpose (row : OperationRow) (target : Option Db.Target) (draw : Nat → String) : Option (Purpose × String) :=
  match row.waitlistId, row.action, target with
  | some id, some .resend, some t => do
    let job ← t.mailId
    return (.resend id job, ← Profile.token job)
  | some id, some .invite, some t => do return (.invite id t.inviteHash (draw 0), ← Profile.token (draw 0))
  | _, _, _ => some (.byHand, draw 1)

def finish (request : Request) (input : FinishInput) (draw : Nat → String) : Route Unit := do
  fails (request.originMatches = false) (.response 403 "")
  let cookie ← demand request.cookie (.response 403 "")
  fails (Profile.validTx input.operationId = false) (.response 400 "")
  let browserHash := Profile.hash cookie
  let d ← read
  let admin ← demand (d.admin browserHash) (.response 403 "")
  let d ← read
  let row ← demand (d.operation input.operationId admin.accountId admin.passkey.credentialId browserHash) (.response 400 "")
  let now ← read
  match (Profile.authenticate row.challenge admin.passkey input.response).filter (·.2.2) with
  | none => do
    commit (.fail input.operationId)
    throw (.response 401 "")
  | some (counter, backupState, _) => do
    fails (row.expiresAt ≤ now.clock) (.response 400 "")
    let target ← (match row.waitlistId, row.action with
      | some id, some action => do
        fails (Profile.ready = false) (.response 503 "")
        let d ← read
        let target ← demand (d.target id action) (.response 409 "")
        return some target
      | _, _ => pure none : Route (Option Db.Target))
    let (purpose, invitation) ← demand (purpose row target draw) .server
    let inviteHash := Profile.hash invitation
    fails (row.action = some .resend ∧ target.bind Db.Target.inviteHash ≠ some inviteHash) (.response 409 "")
    let result ← attempt (commit (.finish
      { operationId := input.operationId, accountId := admin.accountId, credentialId := admin.passkey.credentialId, browserHash
        now := now.clock, counter, backupState, revision := admin.passkey.revision, inviteHash, purpose }))
    if result.isOk = false then do
      let d ← read
      fails (d.admin browserHash).isNone (.response 403 "")
      let d ← read
      let consumed : Bool := decide (∃ o ∈ d.operations, o.operationId = input.operationId ∧ o.consumed = true)
      let changed ← (match row.waitlistId, row.action with
        | some id, some action => do
          let d ← read
          return (d.target id action).isNone
        | _, _ => pure false : Route Bool)
      fails (consumed = true ∨ changed = true) (.response 409 "")
      throw .server
    else do
      let d ← read
      let _ ← demand (lookup InviteRow.inviteHash inviteHash d.invites) .server
      match purpose with
      | .byHand => pure ()
      | .invite _ _ job | .resend _ job => deliver job (draw 2)

/-- Deliveries in turn; one that fails ends the run. -/
def deliverAll (draw : Nat → String) : Nat → List MailRow → Route Unit
  | _, [] => pure ()
  | n, m :: rest => do
    deliver m.id (draw n)
    deliverAll draw (n + 1) rest

/-- The jobs of a run, the oldest first. -/
def due (d : Db) : List MailRow :=
  ((d.mail.filter fun m => m.kind = .invitation ∧ m.expiresAt > d.clock ∧ m.nextAttemptAt ≤ d.clock ∧ m.attempts < 5 ∧
    m.state.free d.clock = true).insertionSort fun a b => a.createdAt ≤ b.createdAt).take 20

/-- `run_due`. -/
def runDue (draw : Nat → String) : Route Unit := do
  if Profile.ready = false then pure ()
  else do
    commit .cancelObsolete
    commit .failStuck
    let d ← read
    deliverAll draw 0 (due d)
    commit .sweep

/-- An enrollment with the invitation that its registration was bound to. -/
def enrollment (inviteHash : String) : Route Unit := do
  let d ← read
  fails (¬∃ i ∈ d.invites, i.inviteHash = inviteHash ∧ i.usable d.clock) (.response 400 "")
  let now ← read
  commit (.enrol inviteHash now.clock)

/-- `request` of the waiting list. -/
def joinWaitlist (email locale : String) (maximum : Nat) (draw : Nat → String) : Route Unit := do
  let now ← read
  commit (.join
    { id := draw 0, email, locale, createdAt := now.clock, verifiedAt := none, confirmationHash := Profile.hash (draw 1)
      confirmationExpiresAt := 0, confirmationSentAt := 0, inviteHash := none } maximum)

end

inductive Call where
  | start (request : Request) (input : Option (Option WaitlistInput))
  | finish (request : Request) (input : FinishInput)
  | cron
  | enrol (inviteHash : String)
  | join (email locale : String) (maximum : Nat)

/-- The program of a call with what it draws. -/
def Call.program [Profile] (draw : Nat → String) : Call → Route Unit
  | start request input => Enrollment.start request input draw
  | finish request input => Enrollment.finish request input draw
  | cron => runDue draw
  | enrol inviteHash => enrollment inviteHash
  | join email locale maximum => joinWaitlist email locale maximum draw

end Mikaki.Enrollment
