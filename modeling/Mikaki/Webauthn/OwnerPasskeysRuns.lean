import Mikaki.Webauthn.OwnerPasskeysSound

/-!
# Passkeys of an owner over runs

Who registers has proven the registration that was opened for the session. A
transaction is inserted once, since its id is drawn; what follows from that is
read off the ledger.
-/

namespace Mikaki.Webauthn.OwnerPasskeys

open Concurrent Concurrent.Prog Rows Transactions Checks
open Mikaki.Vault (AccountRow Accounts BoundSessionRow CredentialRow Failure Owner SessionRow demand encode64)
open Mikaki.Dbsc (validTx)
open Login (PasskeyRow Site)

variable {d d' : Db}

section
variable [Bodies]

theorem verify_eq_some {site : Site} {rpId : String} {row : RegistrationRow} {owner : Owner} {now : Nat} {response : Registration}
    {proof : VerifiedRegistration} :
    verify site rpId row owner now response = some proof ↔
      (owner.secretHash ≠ "" ∧ now < row.expiresAt ∧ row.failures < 5) ∧
        Webauthn.register (context site rpId row.challenge response) response = .ok proof ∧ proof.userVerified = true := by
  unfold verify
  dsimp only
  have hceremony : ∀ p, Ceremony.register ⟨"register", owner.secretHash, row.expiresAt, row.failures, false,
      context site rpId row.challenge response⟩ owner.secretHash now 5 response = .ok p ↔
      (owner.secretHash ≠ "" ∧ now < row.expiresAt ∧ row.failures < 5) ∧
        Webauthn.register (context site rpId row.challenge response) response = .ok p := by
    intro p
    simp only [Ceremony.register, Ceremony.validate, bind_eq_ok, exists_unit, denyIf_eq_ok, not_or, not_true, ne_eq, not_false_eq_true,
      true_and, and_true, Bool.false_eq_true, Nat.not_le]
  cases hc : Ceremony.register ⟨"register", owner.secretHash, row.expiresAt, row.failures, false,
      context site rpId row.challenge response⟩ owner.secretHash now 5 response with
  | error e =>
    constructor
    · intro h
      cases h
    · intro h
      obtain ⟨hv, hr, -⟩ := h
      rw [(hceremony proof).mpr ⟨hv, hr⟩] at hc
      cases hc
  | ok p =>
    obtain ⟨hv, hr⟩ := (hceremony p).mp hc
    dsimp only
    constructor
    · intro h
      split at h
      · rename_i hu
        obtain rfl := Option.some.inj h
        exact ⟨hv, hr, hu⟩
      · cases h
    · intro h
      obtain ⟨-, hr', hu⟩ := h
      obtain rfl := Except.ok.inj (hr.symm.trans hr')
      rw [if_pos hu]

/-! ## Who registers -/

/-- The request has proven the registration that was opened for the session, and registers what it has proven. -/
structure Proven {ι : Type} (site : Site) (request : Request) (l : List (Entry ι Db Tx)) (p : Register) (body : String) (input : Finish)
    (row : RegistrationRow) (rpId : String) : Prop where
  read : request.body = some body
  parsed : Bodies.finish body = some input
  valid : validTx input.transactionId = true
  transaction : input.transactionId = p.transactionId
  hashed : p.requestHash = hash body
  clock : request.clock 1 = some p.now
  opened : Opened l row
  matched : row.transactionId = p.transactionId ∧ row.accountId = p.accountId ∧ row.sessionHash = p.secretHash ∧ p.secretHash ≠ ""
  host : OwnerPasskeys.rpId site = some rpId
  proof : Webauthn.register (context site rpId row.challenge input.response) input.response = .ok p.proof
  verified : p.proof.userVerified = true

section
variable {ι : Type} (site : Site) (session : String → String) (calls : ι → Call) (draw : ι → Nat → String)

def Sent (i : ι) (l : List (Entry ι Db Tx)) : Tx → Prop
  | .sweep _ => True
  | .start p => p.transactionId = draw i 0
  | .fail _ => True
  | .register p => ∃ request body input row rpId, calls i = .finish request ∧ Proven site request l p body input row rpId

structure History (d : Db) (l : List (Entry ι Db Tx)) : Prop where
  sound : d.Sound session
  ledger : Ledger d l
  sent : ∀ e ∈ l, Sent site calls draw e.caller l e.tx
  ran : ∀ e ∈ l, e.before.Sound session ∧ ∃ after, e.tx.run e.before = some after

def proving : Discipline ι Db Tx where
  inv := History site session calls draw
  sent i tx _ l := Sent site calls draw i l tx
  noted _ _ _ _ := False

end

section
variable {ι : Type} {site : Site} {session : String → String} {calls : ι → Call} {draw : ι → Nat → String}
  {l : List (Entry ι Db Tx)} {i : ι} {tx : Tx}

theorem Sent.snoc (h : Sent site calls draw i l tx) (e : Entry ι Db Tx) : Sent site calls draw i (l ++ [e]) tx := by
  cases tx with
  | sweep now => trivial
  | start p => exact h
  | fail t => trivial
  | register p =>
    obtain ⟨request, body, input, row, rpId, hcall, hp⟩ := h
    exact ⟨request, body, input, row, rpId, hcall, { hp with opened := hp.opened.snoc e }⟩

theorem History.step (h : History site session calls draw d l) (hsent : Sent site calls draw i l tx) (hrun : tx.run d = some d') :
    History site session calls draw d' (l ++ [⟨i, tx, d⟩]) where
  sound := Tx.sound hrun h.sound
  ledger := h.ledger.step hrun
  sent e he := by
    rcases List.mem_append.mp he with he | he
    · exact (h.sent e he).snoc _
    · rw [List.mem_singleton.mp he]
      exact hsent.snoc _
  ran e he := by
    rcases List.mem_append.mp he with he | he
    · exact h.ran e he
    · rw [List.mem_singleton.mp he]
      exact ⟨h.sound, d', hrun⟩

theorem proving_keeps : Keeps (passkeys session) (proving site session calls draw) := by
  refine ⟨⟨?_, ?_⟩, fun i tx => ⟨?_, ?_⟩⟩
  · rintro j tx d d' l h (hsent | hnoted) hrun -
    · exact h.step hsent hrun
    · exact hnoted.elim
  · intro d d' l h hd _
    exact ⟨hd.sound, h.ledger.drift hd, h.sent, h.ran⟩
  · intro j tx' d d' l _ _ _ hsent
    exact hsent.snoc _
  · intro d d' l _ _ hsent
    exact hsent

/-! ## Programs -/

/-- Some registration has this id and hash. -/
def Acknowledged (l : List (Entry ι Db Tx)) (transactionId id requestHash : String) : Prop :=
  ∃ e ∈ l, ∃ p, e.tx = .register p ∧ p.transactionId = transactionId ∧ p.proof.id = id ∧ p.requestHash = requestHash

/-- What a reply of a call says. -/
def Returned (call : Call) (l : List (Entry ι Db Tx)) (reply : Reply) : Prop :=
  ∀ id, reply = .registered id → ∃ request body input, call = .finish request ∧ request.body = some body ∧
    Bodies.finish body = some input ∧ Acknowledged l input.transactionId id (hash body)

omit [Bodies] in
theorem opened_some {transactionId : String} {owner : Owner} {now : Nat} {row : RegistrationRow}
    (h : d.opened transactionId owner now = some row) :
    row ∈ d.registrations ∧ row.transactionId = transactionId ∧ row.accountId = owner.accountId ∧
      row.sessionHash = owner.secretHash ∧ now < row.expiresAt ∧ row.failures < 5 := by
  have hp := List.find?_some h
  simp only [decide_eq_true_eq] at hp
  exact ⟨List.mem_of_find?_eq_some h, hp⟩

theorem gives_commit (h : ∀ l, Sent site calls draw i l tx) :
    Ensures (world (passkeys session)) (contract (passkeys session) (proving site session calls draw)) i (fun _ => True)
      (commit tx : Route Unit) fun _ _ => True :=
  (spec_commit proving_keeps fun s _ _ => h s.log).post fun _ _ _ _ => trivial

theorem start_valid (request : Request) (i : ι) :
    Ensures (world (passkeys session)) (contract (passkeys session) (proving site session calls draw)) i (fun _ => True)
      (start site request (draw i)) fun reply s => Returned (calls i) s.log reply := by
  refine (Vault.gives_fails _ _).andThen fun _ _ => (Vault.gives_owner _ _ _).andThen fun found _ => ?_
  refine (Vault.gives_demand _ _).andThen fun owner _ => (Vault.gives_demand _ _).andThen fun now _ => ?_
  refine (gives_commit (by intro; trivial)).andThen fun _ _ => (gives_commit (by intro; rfl)).andThen fun _ _ => ?_
  refine spec_any.andThen fun d _ => (Vault.gives_demand _ _).andThen fun row _ => spec_any.andThen fun d _ => ?_
  refine (Vault.gives_demand _ _).andThen fun rpId _ => .pure fun _ _ _ id hid => ?_
  cases hid

/-- What is known of the row that was read. -/
def Read (row : RegistrationRow) (l : List (Entry ι Db Tx)) : Prop := Opened l row.initial ∧ (row.consumed = true → ConsumedBy l row)

theorem finish_valid {request : Request} (hcall : calls i = .finish request) :
    Ensures (world (passkeys session)) (contract (passkeys session) (proving site session calls draw)) i (fun _ => True)
      (finish site request) fun reply s => Returned (calls i) s.log reply := by
  have hk : Keeps (passkeys session) (proving site session calls draw) := proving_keeps
  refine (Vault.gives_fails _ _).andThen fun _ _ => (Vault.gives_fails _ _).andThen fun _ _ => ?_
  refine (Vault.gives_owner _ _ _).andThen fun found _ => (Vault.gives_demand _ _).andThen fun owner _ => ?_
  refine (Vault.gives_demand _ _).andThen fun body hbody => (Vault.gives_demand _ _).andThen fun input hinput => ?_
  refine (Vault.gives_fails _ _).andThen fun _ hvalid => (Vault.gives_demand _ _).andThen fun now hnow => ?_
  have hkept : ∀ d₀ : Db, Kept (passkeys session) (proving site session calls draw) fun _ l =>
      ∀ row, d₀.opened input.transactionId owner now = some row → Read row l := by
    intro d₀
    constructor
    · intro j tx d d' l _ _ _ hread row hrow
      exact ⟨(hread row hrow).1.snoc _, fun hc => ((hread row hrow).2 hc).snoc _⟩
    · intro d d' l _ _ hread
      exact hread
  refine (spec_read (.const True) hkept fun d l h row hrow => ?_).bind fun d₀ => ?_
  · have hl := h.ledger.rows row (opened_some hrow).1
    exact ⟨hl.opened, hl.consumed⟩
  refine Ensures.weaken (P := fun s => ∀ row, d₀.opened input.transactionId owner now = some row → Read row s.log) ?_
    fun _ _ hs => hs.2
  have hF := (hkept d₀).lasting (ε := Failure)
  refine .carry hF (Vault.gives_demand _ _) fun row hrow => .carry hF (Vault.gives_demand _ _) fun rpId hrpId => ?_
  obtain ⟨-, hid, haccount, hsession, -, -⟩ := opened_some hrow
  cases hv : verify site rpId row owner now input.response with
  | none =>
    exact ((gives_commit (by intro; trivial)).weaken fun _ _ _ => trivial).bind fun _ => .throw
  | some proof =>
    obtain ⟨⟨hsecret, -, -⟩, hproof, hverified⟩ := verify_eq_some.mp hv
    refine .carry hF (Vault.gives_fails _ _) fun _ _ => ?_
    by_cases hcon : row.consumed = true
    · rw [if_pos hcon]
      refine .carry hF (Vault.gives_fails _ _) fun _ hsame => .pure fun s _ hs id hreply => ?_
      obtain ⟨hcredential, hhash⟩ := not_not.mp hsame
      obtain ⟨e, he, p, htx, ht, hc, hh⟩ := (hs row hrow).2 hcon
      cases hreply
      refine ⟨request, body, input, hcall, hbody, hinput, e, he, p, htx, ht.trans hid, ?_, ?_⟩
      · exact Option.some.inj (hc.symm.trans hcredential)
      · exact Option.some.inj (hh.symm.trans hhash)
    · rw [if_neg hcon]
      refine (Ensures.attempt (spec_commit hk fun s _ hs => ?_)).bind fun done => ?_
      · refine ⟨request, body, input, row.initial, rpId, hcall, hbody, hinput, Bool.not_eq_false _ ▸ hvalid, rfl, rfl, hnow,
          (hs row hrow).1, ⟨hid, haccount, hsession, hsecret⟩, hrpId, hproof, hverified⟩
      · refine Ensures.fails.bind fun _ => .pure fun s _ hs id hreply => ?_
        obtain ⟨hdone, hok⟩ := hs
        cases hreply
        cases done with
        | error e => exact absurd rfl hok
        | ok u =>
          obtain ⟨before, he⟩ := hdone u rfl
          exact ⟨request, body, input, hcall, hbody, hinput, _, he, _, rfl, rfl, rfl, rfl⟩

theorem program_valid (i : ι) :
    Ensures (world (passkeys session)) (contract (passkeys session) (proving site session calls draw)) i (fun _ => True)
      ((calls i).program site (draw i)) fun reply s => Returned (calls i) s.log reply := by
  cases hcall : calls i with
  | start request =>
    have hprogram : (calls i).program site (draw i) = start site request (draw i) := by rw [hcall]; rfl
    rw [← hcall, hprogram]
    exact start_valid request i
  | finish request =>
    have hprogram : (calls i).program site (draw i) = finish site request := by rw [hcall]; rfl
    rw [← hcall, hprogram]
    exact finish_valid hcall

/-! ## What is drawn once -/

def Tx.isStart : Tx → Bool
  | start _ => true
  | _ => false

/-- The reading of an owner sends nothing. -/
theorem quiet_owner {φ : Tx → Bool} (request : Vault.Request) (n : Nat) :
    AtMost (Transactions.Request.carries φ) 0 (Vault.owner Db.around request n : Route (Option Owner)).run := by
  unfold Vault.owner
  cases request.cookie with
  | none => exact .ret _
  | some cookie => exact .after (Vault.quiet_demand 0 _ _) fun now => .after quiet_read fun d => .ret _

theorem program_atMost (call : Call) (draw : Nat → String) :
    AtMost (Transactions.Request.carries Tx.isStart) 1 (call.program site draw).run := by
  cases call with
  | start request =>
    refine .after (Vault.quiet_fails 0 _ _) fun _ => .after (quiet_owner _ _) fun found => .after (Vault.quiet_demand 0 _ _) fun owner => ?_
    refine .after (Vault.quiet_demand 0 _ _) fun now => .after (quiet_commit rfl) fun _ => ?_
    refine (sends_commit _).andThen (n := 0) fun _ => .after quiet_read fun d => .after (Vault.quiet_demand 0 _ _) fun row => ?_
    exact .after quiet_read fun d => .after (Vault.quiet_demand 0 _ _) fun rpId => .ret _
  | finish request =>
    refine .after (Vault.quiet_fails 0 _ _) fun _ => .after (Vault.quiet_fails 0 _ _) fun _ => .after (quiet_owner _ _) fun found => ?_
    refine .after (Vault.quiet_demand 0 _ _) fun owner => .after (Vault.quiet_demand 0 _ _) fun body => ?_
    refine .after (Vault.quiet_demand 0 _ _) fun input => .after (Vault.quiet_fails 0 _ _) fun _ => ?_
    refine .after (Vault.quiet_demand 0 _ _) fun now => .after quiet_read fun d => .after (Vault.quiet_demand 0 _ _) fun row => ?_
    refine .after (Vault.quiet_demand 0 _ _) fun rpId => ?_
    cases verify site rpId row owner now input.response with
    | none => exact .after (quiet_commit rfl) fun _ => .ret _
    | some proof =>
      refine .after (Vault.quiet_fails 0 _ _) fun _ => ?_
      by_cases hcon : row.consumed = true
      · rw [if_pos hcon]
        exact .after (Vault.quiet_fails 0 _ _) fun _ => .ret _
      · rw [if_neg hcon]
        exact .after (AtMost.attempt (quiet_commit rfl)) fun done => .after (Vault.quiet_fails 0 _ _) fun _ => .ret _

section
variable [DecidableEq ι]
  {c c' : Config ι (Shared ι Db Tx) (Transactions.Request Failure Db Tx) Transactions.Request.Reply (Except Failure Reply)}

end

section
variable (hone : ∀ t, l.countP (inserts t) ≤ 1)
include hone

omit [Bodies] in
theorem Opened.eq {row row' : RegistrationRow} (h : Opened l row) (h' : Opened l row')
    (ht : row.transactionId = row'.transactionId) : row = row' := by
  obtain ⟨e, he, p, htx, hrow⟩ := h
  obtain ⟨f, hf, q, htx', hrow'⟩ := h'
  have hinsert : ∀ {g : Entry ι Db Tx} {p : Start} {r : RegistrationRow}, g.tx = .start p → p.row g.before = some r →
      inserts r.transactionId g = true := by
    intro g p r hg hr
    unfold inserts
    rw [hg]
    simp [hr, (Start.row_some hr).1]
  obtain rfl := eq_of_countP_le_one (hone row.transactionId) he hf (hinsert htx hrow) (ht ▸ hinsert htx' hrow')
  obtain rfl := Tx.start.inj (htx.symm.trans htx')
  exact Option.some.inj (hrow.symm.trans hrow')

omit [Bodies] in
theorem Ledger.registered_once (h : Ledger d l) (t : String) : l.countP (·.tx.registers t) ≤ 1 := (h.registered t).trans (hone t)

omit [Bodies] in
theorem Ledger.register_eq (h : Ledger d l) {e f : Entry ι Db Tx} {p q : Register} (he : e ∈ l) (hf : f ∈ l)
    (htx : e.tx = .register p) (htx' : f.tx = .register q) (ht : p.transactionId = q.transactionId) : p = q := by
  have hreg : ∀ {g : Entry ι Db Tx} {r : Register}, g.tx = .register r → g.tx.registers r.transactionId = true := by
    intro g r hg
    rw [hg]
    exact beq_self_eq_true _
  obtain rfl := eq_of_countP_le_one (h.registered_once hone p.transactionId) he hf (hreg htx) (ht ▸ hreg htx')
  exact Tx.register.inj (htx.symm.trans htx')

end

/-! ## A retry -/

/-- Every credential keeps its account, and every key its credential and its user. -/
def Db.Later (d d' : Db) : Prop :=
  (∀ c ∈ d.credentials, ∃ c' ∈ d'.credentials, c'.credentialId = c.credentialId ∧ c'.accountId = c.accountId) ∧
    ∀ p ∈ d.passkeys, ∃ p' ∈ d'.passkeys, p'.credentialId = p.credentialId ∧ p'.publicKey = p.publicKey ∧ p'.userHandle = p.userHandle

omit [Bodies] in
theorem Db.Later.trans {d'' : Db} (h : d.Later d') (h' : d'.Later d'') : d.Later d'' := by
  constructor
  · intro c hc
    obtain ⟨c', hc', hid, ha⟩ := h.1 c hc
    obtain ⟨c'', hc'', hid', ha'⟩ := h'.1 c' hc'
    exact ⟨c'', hc'', hid'.trans hid, ha'.trans ha⟩
  · intro p hp
    obtain ⟨p', hp', hid, hk, hu⟩ := h.2 p hp
    obtain ⟨p'', hp'', hid', hk', hu'⟩ := h'.2 p' hp'
    exact ⟨p'', hp'', hid'.trans hid, hk'.trans hk, hu'.trans hu⟩

section
variable [DecidableEq ι]
  {c c' : Config ι (Shared ι Db Tx) (Transactions.Request Failure Db Tx) Transactions.Request.Reply (Except Failure Reply)}

end

end

end

/-! ## A run -/

namespace Sample

def letters (n : Nat) (c : Char) : String := String.ofList (List.replicate n c)

def draw (i n : Nat) : String :=
  String.ofList (List.replicate i 'a' ++ 'b' :: (List.replicate n 'c' ++ List.replicate (42 - 12 * n) 'd'))

theorem draw_inj {i j m n : Nat} (h : draw i m = draw j n) : i = j ∧ m = n := by
  have hl := String.ofList_inj.mp h
  have ha := congrArg (List.count 'a') hl
  have hc := congrArg (List.count 'c') hl
  simp [List.count_append, List.count_replicate] at ha hc
  exact ⟨ha, hc⟩

def text (bytes : List UInt8) : String := String.ofList (bytes.map fun b => Char.ofNat b.toNat)

/-- The data of an authenticator for the credential `id`, with a key of one byte. -/
def authenticatorData : List UInt8 :=
  Sha.sha256 (Text.bytes "op.example") ++ [0x45, 0, 0, 0, 0] ++ List.replicate 16 0 ++ [0, 2] ++ Text.bytes "id" ++ [7]

/-- A byte is a character, every body is of the first registration, and every key verifies. -/
@[reducible] def bodies : Bodies where
  decode64 s := some (s.toList.map fun c => UInt8.ofNat c.toNat)
  encode64 := text
  clientData _ _ _ := .ok ⟨"webauthn.create", draw 0 1, "https://op.example", false, none, none⟩
  cbor bytes _ := .ok (if bytes.length = 1 then .other else .map [(.text "authData", .bytes authenticatorData)], bytes.length)
  publicKey _ := .ok ⟨-7, []⟩
  verify _ _ _ := .ok ()
  attestation _ _ _ _ _ _ := .ok ()
  hash := id
  url _ := some ⟨"https://op.example", some "op.example", "/vault", [], none⟩
  originMember _ _ := none
  finish _ := some ⟨draw 0 0, ⟨"id", "data", "object"⟩⟩

def site : Site := ⟨"https://op.example", 4096, 3600, none⟩

/-- The secret of the session, as its hash is stored. -/
def secretHash : String := text (Sha.sha256 (Text.bytes "secret"))

def db : Db :=
  { contexts := [⟨⟨"sso", secretHash⟩, 900⟩], sessions := [⟨"sso", "owner", "passkey", 1, 5000, false⟩], boundSessions := []
    accounts := [⟨"owner", 1, true⟩], credentials := [⟨"passkey", "owner", true⟩]
    passkeys := [⟨"passkey", "key", "user", 0, false, false, 1⟩], registrations := [], unixepoch := 1000 }

def request : Request :=
  { bucket := true, origin := some "https://op.example", url := "https://op.example", ifNoneMatch := none, ifMatch := none
    operation := none, cookie := some "secret", contentType := some "application/json", body := some "body"
    clock := fun _ => some 1000, authorityCurrent := true }

/-- A registration is opened, finished and finished again. -/
def call : Nat → Call
  | 0 => .start request
  | _ => .finish request

def moves : List (Move Nat Failure Db Tx (Except Failure Reply)) :=
  let _ := bodies
  let turn (i n : Nat) : List (Move Nat Failure Db Tx (Except Failure Reply)) :=
    .start i ((call i).program site (draw i)).run :: List.replicate n (.go i)
  turn 0 5 ++ turn 1 3 ++ turn 2 2

theorem played :
    (play (passkeys fun _ => "sso") Failure.server moves (.initial (.initial db))).map
      (fun c => (c.state.db.credentials, c.state.log.countP (·.tx.registers (draw 0 0)))) =
    some ([⟨"passkey", "owner", true⟩, ⟨"id", "owner", true⟩], 1) := by
  decide +kernel

end Sample

end Mikaki.Webauthn.OwnerPasskeys
