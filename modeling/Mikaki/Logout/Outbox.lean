import Mikaki.Lib.Rows
import Mikaki.Vault.Http

/-!
# Back-channel logout

A confirmed logout revokes the session and writes a delivery for every client
that is to be told. Queue and cron runs lease the deliveries, send the tokens
and settle. A clock that is read is the one clock of the database at some
earlier step; it may have moved on when the statement runs.
-/

namespace Mikaki.Logout

open Concurrent Concurrent.Prog Rows Transactions
open Mikaki.Vault (Failure demand)

def deliveryDeadlineSeconds : Nat := 2 * 86400

def leaseSeconds : Nat := 20

def globalConcurrency : Nat := 2

/-! ## Tables -/

/-- `sso_session`, as far as a logout reads it. -/
structure SessionRow where
  ssoId : String
  expiresAt : Nat
  revoked : Bool
  deriving DecidableEq

/-- `client_session`. -/
structure ClientSessionRow where
  clientId : String
  sid : String
  ssoId : String
  sub : String
  revoked : Bool
  deriving DecidableEq

def ClientSessionRow.key (self : ClientSessionRow) : String × String := (self.clientId, self.sid)

/-- `client`. -/
structure ClientRow where
  clientId : String
  active : Bool
  deriving DecidableEq

/-- `client_backchannel_logout_uri`. -/
structure UriRow where
  clientId : String
  logoutUri : String
  active : Bool
  deriving DecidableEq

/-- `logout_transaction`. -/
structure TransactionRow where
  csrfHash : String
  ssoId : String
  cookieHash : String
  redirectUri : String
  state : String
  expiresAt : Nat
  deriving DecidableEq

/-- `sso_logout_event`. -/
structure EventRow where
  eventId : String
  ssoId : String
  createdAt : Nat
  deadline : Nat
  deriving DecidableEq

/-- Only a leased delivery has a lease. -/
inductive DeliveryState where
  | pending
  | leased (id : String) (leaseUntil : Nat)
  | delivered
  | failed
  | expired
  deriving DecidableEq

namespace DeliveryState

/-- Pending, or under a lease that has run out. -/
def free (now : Nat) : DeliveryState → Bool
  | pending => true
  | leased _ leaseUntil => leaseUntil ≤ now
  | _ => false

/-- Under a lease that has not run out. -/
def busy (now : Nat) : DeliveryState → Bool
  | leased _ leaseUntil => now < leaseUntil
  | _ => false

def isOpen : DeliveryState → Bool
  | pending | leased _ _ => true
  | _ => false

def lease : DeliveryState → Option String
  | leased id _ => some id
  | _ => none

end DeliveryState

/-- `logout_delivery`. -/
structure DeliveryRow where
  eventId : String
  clientId : String
  sid : String
  sub : String
  logoutUri : String
  state : DeliveryState
  attempts : Nat
  nextAt : Nat
  lastStatus : Option Nat
  finishedAt : Option Nat
  deriving DecidableEq

def DeliveryRow.key (self : DeliveryRow) : String × String × String := (self.eventId, self.clientId, self.sid)

/-- A logout token that was sent. -/
structure Sent where
  key : String × String × String
  lease : String
  jti : String
  token : String
  deriving DecidableEq

structure Db where
  clock : Nat
  /-- The key that signs is a registered one. -/
  registered : Bool
  sessions : List SessionRow
  clientSessions : List ClientSessionRow
  clients : List ClientRow
  uris : List UriRow
  transactions : List TransactionRow
  events : List EventRow
  deliveries : List DeliveryRow
  sent : List Sent

namespace Db

/-- The deliveries under an unexpired lease. -/
def busy (self : Db) (now : Nat) : List DeliveryRow := self.deliveries.filter (·.state.busy now)

def busyFor (self : Db) (client : String) (now : Nat) : List DeliveryRow :=
  self.deliveries.filter fun r => r.clientId == client && r.state.busy now

/-- The event of a delivery, where its deadline lies ahead. -/
def ahead (self : Db) (event : String) (now : Nat) : Prop := ∃ e ∈ self.events, e.eventId = event ∧ e.deadline > now

instance (self : Db) (event : String) (now : Nat) : Decidable (self.ahead event now) := List.decidableBEx _ _

end Db

/-! ## Confirming -/

/-- The values bound to the batch of `confirm`. -/
structure Confirm where
  csrfHash : String
  cookieHash : String
  ssoId : String
  eventId : String
  now : Nat

namespace Confirm

def matchesTransaction (self : Confirm) (t : TransactionRow) : Prop :=
  t.csrfHash = self.csrfHash ∧ t.cookieHash = self.cookieHash ∧ t.ssoId = self.ssoId ∧ t.expiresAt > self.now

instance (self : Confirm) : DecidablePred self.matchesTransaction := fun _ => inferInstanceAs (Decidable (_ ∧ _))

/-- The session is there, neither revoked nor expired. -/
def live (self : Confirm) (s : SessionRow) : Prop := s.ssoId = self.ssoId ∧ s.revoked = false ∧ s.expiresAt > self.now

instance (self : Confirm) : DecidablePred self.live := fun _ => inferInstanceAs (Decidable (_ ∧ _))

def event (self : Confirm) : EventRow :=
  { eventId := self.eventId, ssoId := self.ssoId, createdAt := self.now, deadline := self.now + deliveryDeadlineSeconds }

def delivery (self : Confirm) (cs : ClientSessionRow) (b : UriRow) : DeliveryRow :=
  { eventId := self.eventId, clientId := cs.clientId, sid := cs.sid, sub := cs.sub, logoutUri := b.logoutUri
    state := .pending, attempts := 0, nextAt := self.now, lastStatus := none, finishedAt := none }

/-- The client session is live: not revoked, of an active client. -/
def told (self : Confirm) (d : Db) (cs : ClientSessionRow) : Prop :=
  cs.ssoId = self.ssoId ∧ cs.revoked = false ∧ ∃ c ∈ d.clients, c.clientId = cs.clientId ∧ c.active = true

instance (self : Confirm) (d : Db) : DecidablePred (self.told d) := fun _ => inferInstanceAs (Decidable (_ ∧ _))

def uri (d : Db) (client : String) : Option UriRow := d.uris.find? fun b => b.clientId = client ∧ b.active = true

/-- The rows that `INSERT .. SELECT` inserts; the client is the key of both tables that are joined. -/
def rows (self : Confirm) (d : Db) : List DeliveryRow :=
  d.clientSessions.filterMap fun cs => if self.told d cs then (uri d cs.clientId).map (self.delivery cs) else none

/-- The batch. -/
def run (self : Confirm) (d : Db) : Option Db := do
  require (∃ t ∈ d.transactions, self.matchesTransaction t)
  require (∃ s ∈ d.sessions, self.live s)
  require (∀ e ∈ d.events, e.ssoId ≠ self.ssoId)
  let events ← insert EventRow.eventId (fun e => e.eventId.length = 43 ∧ 0 < e.createdAt ∧ e.createdAt < e.deadline)
    self.event d.events
  let deliveries ← (self.rows d).foldlM (fun t r => insert DeliveryRow.key (fun r => 0 < r.nextAt) r t) d.deliveries
  return { d with
    transactions := d.transactions.filter fun t => ¬self.matchesTransaction t
    events, deliveries
    sessions := update self.live (fun s => { s with revoked := true }) d.sessions
    clientSessions := update (fun cs => cs.ssoId = self.ssoId ∧ cs.revoked = false) (fun cs => { cs with revoked := true })
      d.clientSessions }

end Confirm

/-! ## Delivering -/

/-- The `UPDATE` that expires deliveries past their deadline. -/
def expire (now : Nat) (event : Option String) (d : Db) : Db :=
  { d with
    deliveries := update (fun r => r.state.isOpen = true ∧ (∀ e, event = some e → r.eventId = e) ∧
        ∃ e ∈ d.events, e.eventId = r.eventId ∧ e.deadline ≤ now)
      (fun r => { r with state := .expired, finishedAt := some now }) d.deliveries }

/-- The row that a claim leases. -/
def claims (key : String × String × String) (now : Nat) (d : Db) (r : DeliveryRow) : Prop :=
  r.key = key ∧ r.nextAt ≤ now ∧ r.state.free now = true ∧ d.ahead r.eventId now ∧
    (d.busy now).length < globalConcurrency ∧ (d.busyFor r.clientId now).length < 1

instance (key : String × String × String) (now : Nat) (d : Db) : DecidablePred (claims key now d) :=
  fun _ => inferInstanceAs (Decidable (_ ∧ _))

def claim (key : String × String × String) (now : Nat) (lease : String) (d : Db) : Db :=
  { d with
    deliveries := update (claims key now d)
      (fun r => { r with state := .leased lease (now + leaseSeconds), attempts := r.attempts + 1 }) d.deliveries }

/-- What is written where a delivery is settled. -/
structure Settlement where
  key : String × String × String
  lease : String
  state : DeliveryState
  nextAt : Nat
  status : Option Nat
  finishedAt : Option Nat
  unleased : state.lease = none

def Settlement.selects (self : Settlement) (r : DeliveryRow) : Prop := r.key = self.key ∧ r.state.lease = some self.lease

instance (self : Settlement) : DecidablePred self.selects := fun _ => inferInstanceAs (Decidable (_ ∧ _))

def Settlement.run (self : Settlement) (d : Db) : Db :=
  { d with
    deliveries := update self.selects
      (fun r => { r with state := self.state, nextAt := self.nextAt, lastStatus := self.status, finishedAt := self.finishedAt })
      d.deliveries }

inductive Tx where
  | confirm (p : Confirm)
  | expire (now : Nat) (event : Option String)
  | claim (key : String × String × String) (now : Nat) (lease : String)
  | settle (p : Settlement)
  | send (s : Sent)

def Tx.run : Tx → Db → Option Db
  | confirm p, d => p.run d
  | expire now event, d => some (Logout.expire now event d)
  | claim key now lease, d => some (Logout.claim key now lease d)
  | settle p, d => some (p.run d)
  | send s, d => some { d with sent := d.sent ++ [s] }

/-- The clock goes on, and sessions, clients and pending confirmations change; nobody else writes events and deliveries. -/
def outbox : System Db Tx where
  run := Tx.run
  drift d d' := d.clock ≤ d'.clock ∧ Unique ClientSessionRow.key d'.clientSessions ∧ d'.events = d.events ∧
    d'.deliveries = d.deliveries ∧ d'.sent = d.sent

abbrev Route := Calls Failure Db Tx

/-- The hash, and the tokens that can be signed: of an issuer, a client, a subject, a session and an identity, at a time. -/
class Tokens where
  hash : String → String
  validTx : String → Bool
  /-- An https URL with a host, without credentials or a fragment. -/
  destination : String → Bool
  sign : String → String → String → String → String → Nat → Nat → Option String

/-- What a worker draws and meets: the secrets and the order of the requests of each page, and what a fetch answers. -/
structure Worker where
  issuer : String
  draws : Nat → Nat → String
  schedule : Nat → List Nat
  answers : String → Option Nat

/-- A row of a page, with the deadline of its event. -/
structure Due where
  row : DeliveryRow
  deadline : Nat
  deriving DecidableEq

/-! ### The page of a run -/

def busyClient (d : Db) (now : Nat) (client : String) : Bool := !(d.busyFor client now).isEmpty

/-- Deliveries of the event, or of all events, that a run may take up. -/
def candidates (d : Db) (now : Nat) (event : Option String) : List Due :=
  d.deliveries.filterMap fun r =>
    (lookup EventRow.eventId r.eventId d.events).bind fun e =>
      if (∀ x, event = some x → r.eventId = x) ∧ e.deadline > now ∧ r.nextAt ≤ now ∧ r.state.free now = true ∧
          busyClient d now r.clientId = false then
        some ⟨r, e.deadline⟩
      else none

/-- `next_at,event_id,sid`. -/
def Due.precedes (a b : Due) : Bool :=
  a.row.nextAt < b.row.nextAt || (a.row.nextAt == b.row.nextAt &&
    (a.row.eventId < b.row.eventId || (a.row.eventId == b.row.eventId && a.row.sid ≤ b.row.sid)))

/-- When a client was last attempted, by what its attempts have left. -/
def lastAttempt (d : Db) (client : String) : Nat :=
  (d.deliveries.filter fun r => r.clientId == client && 0 < r.attempts).foldl (fun n r => max n r.nextAt) 0

/-- The clients' oldest rows, those first whose client has waited longest. -/
def page (d : Db) (now : Nat) (event : Option String) : List Due :=
  let all := candidates d now event
  let oldest := all.filter fun c => all.all fun o => o.row.clientId != c.row.clientId || c.precedes o
  let le (a b : Due) : Bool :=
    let x := lastAttempt d a.row.clientId
    let y := lastAttempt d b.row.clientId
    x < y || (x == y && (a.row.nextAt < b.row.nextAt || (a.row.nextAt == b.row.nextAt &&
      (a.row.eventId < b.row.eventId || (a.row.eventId == b.row.eventId &&
        (a.row.clientId < b.row.clientId || (a.row.clientId == b.row.clientId && a.row.sid ≤ b.row.sid)))))))
  (oldest.insertionSort fun a b => le a b = true).take 2

/-- `has_due`. -/
def hasDue (d : Db) (now : Nat) (event : Option String) : Bool :=
  !(candidates d now event).isEmpty && decide ((d.busy now).length < globalConcurrency)

structure Summary where
  claimed : Nat
  moreDue : Bool
  deriving DecidableEq

section
variable [Tokens]

/-- The identity of a delivery's tokens. -/
def jti (key : String × String × String) : String := Tokens.hash (key.1 ++ ":" ++ key.2.1 ++ ":" ++ key.2.2)

/-- `deliver`, where every failure is no answer. -/
def deliver (w : Worker) (row : DeliveryRow) (lease : String) (now : Nat) : Route (Option Nat) :=
  if Tokens.destination row.logoutUri = false then pure none
  else
    match Tokens.sign w.issuer row.clientId row.sub row.sid (jti row.key) now (now + 300) with
    | none => pure none
    | some token => do
      note (.send { key := row.key, lease, jti := jti row.key, token })
      return w.answers lease

def backoff (attempts : Nat) : Nat := min (30 * 2 ^ min attempts 7) 3600

/-- What a delivery's answer makes of it at a time. -/
def settlement (due : Due) (lease : String) (status : Option Nat) (settledAt : Nat) : Settlement :=
  let nextAt := settledAt + backoff due.row.attempts
  if ∃ s, status = some s ∧ 200 ≤ s ∧ s < 300 then
    ⟨due.row.key, lease, .delivered, nextAt, status, some settledAt, rfl⟩
  else if nextAt ≥ due.deadline then ⟨due.row.key, lease, .failed, nextAt, status, some settledAt, rfl⟩
  else ⟨due.row.key, lease, .pending, nextAt, status, none, rfl⟩

def deliverClaimed (w : Worker) (due : Due) (lease : String) : Route Unit := do
  let d ← read
  let status ← deliver w due.row lease d.clock
  let d ← read
  commit (.settle (settlement due lease status d.clock))

/-- Claim the rows of a page; a row that another run has taken is left out. -/
def claimRows (draws : Nat → String) : Nat → List Due → Route (List (Due × String))
  | _, [] => pure []
  | n, due :: rest => do
    let d ← read
    let before ← perform (.claim due.row.key d.clock (draws n))
    let claimed ← claimRows draws (n + 1) rest
    return if ∃ r ∈ before.deliveries, claims due.row.key d.clock before r then (due, draws n) :: claimed else claimed

def run (w : Worker) (event : Option String) (n : Nat) : Route Summary := do
  let d ← read
  commit (.expire d.clock event)
  let now ← read
  let d ← read
  let rows := page d now.clock event
  if rows = [] then return ⟨0, false⟩
  else do
    let d ← read
    fails (d.registered = false) .server
    let claimed ← claimRows (w.draws n) 0 rows
    let results ← ExceptT.lift (Prog.join (w.schedule n) (claimed.map fun c => (deliverClaimed w c.1 c.2).run))
    fails (∃ r ∈ results, r.isOk = false) .server
    let now ← read
    let d ← read
    return ⟨claimed.length, hasDue d now.clock event⟩

/-- `run_due`, from page `n` on. -/
def runDue (w : Worker) : Nat → Nat → Route Unit
  | 0, _ => pure ()
  | k + 1, n => do
    let summary ← run w none n
    if summary.claimed = 0 ∨ summary.moreDue = false then pure () else runDue w k (n + 1)

/-- `queue_consumer`; a message whose run fails is retried later. -/
def queueConsumer (w : Worker) : Nat → List String → Route Unit
  | _, [] => pure ()
  | n, event :: rest => do
    if Tokens.validTx event = true then
      let _ ← attempt (run w (some event) n)
      queueConsumer w (n + 1) rest
    else queueConsumer w (n + 1) rest

/-- `confirm`; `eventId` is what it draws. -/
def confirm (csrf : String) (csrfCookie ssoCookie : Option String) (eventId : String) : Route Unit := do
  fails (Tokens.validTx csrf = false) (.response 400 "logoutInvalidRequest")
  let csrfCookie ← demand csrfCookie (.response 400 "logoutInvalidRequest")
  let ssoCookie ← demand ssoCookie (.response 400 "logoutInvalidRequest")
  fails (csrf ≠ csrfCookie) (.response 400 "logoutInvalidRequest")
  let now ← read
  let d ← read
  let t ← demand (d.transactions.find? fun t =>
      t.csrfHash = Tokens.hash csrf ∧ t.cookieHash = Tokens.hash ssoCookie ∧ t.expiresAt > now.clock)
    (.response 400 "logoutInvalidRequest")
  let result ← attempt (commit (.confirm
    { csrfHash := Tokens.hash csrf, cookieHash := Tokens.hash ssoCookie, ssoId := t.ssoId, eventId, now := now.clock }))
  fails (result.isOk = false) (.response 400 "logoutInvalidRequest")

end

/-- The callers: confirmations, queue batches and cron runs. -/
inductive Call where
  | confirm (csrf : String) (csrfCookie ssoCookie : Option String) (eventId : String)
  | queue (w : Worker) (events : List String)
  | cron (w : Worker)

/-- The secret is one that the caller draws. -/
def Call.drew (lease : String) : Call → Prop
  | .confirm .. => False
  | .queue w _ | .cron w => ∃ n m, w.draws n m = lease

def Call.program [Tokens] : Call → Route Unit
  | confirm csrf csrfCookie ssoCookie eventId => Logout.confirm csrf csrfCookie ssoCookie eventId
  | queue w events => queueConsumer w 0 events
  | cron w => runDue w 8 0

end Mikaki.Logout
