import Mikaki.Vault.RecordsRuns
import Mikaki.Vault.SharedName

/-!
# A record by itself

Where nothing else happens, a request that is admitted and that the store can
take is done: its head is there with its object, a reader gets both back, and
the same request sent again has the same answer.
-/

namespace Mikaki.Vault.Records

open Concurrent Concurrent.Prog Rows Transactions
open Browser (Bytes)

variable {d d' : Db}

/-! ## Texts and numbers of a request -/

theorem length_encode (bs : Bytes) : (Base64url.encode bs).length = (4 * bs.length + 2) / 3 := by
  rw [← String.length_toList, Base64url.encode, String.toList_ofList]
  exact Base64url.length_chars bs

theorem length_digest (bs : Bytes) : (digest bs).length = 43 := by
  unfold digest
  rw [length_encode, Sha.length_sha256]

theorem length_identifier {s : String} (h : identifier s = true) : 1 ≤ s.length ∧ s.length ≤ 128 := by
  have hletters := SharedName.letters_of_isIdentifier h
  simp only [Browser.letters, Bool.and_eq_true, decide_eq_true_eq] at hletters
  rw [← String.length_toList]
  exact hletters.1

theorem decode_eq_some {s : String} {min max : Nat} {bs : Bytes} :
    decode s min max = some bs ↔ s = Base64url.encode bs ∧ min ≤ bs.length ∧ bs.length ≤ max := by
  simp only [decode, Option.bind_eq_bind, Option.bind_eq_some_iff, Option.guard_eq_some', exists_const, Option.pure_def, Option.some.injEq]
  constructor
  · rintro ⟨-, a, -, ⟨hmin, hmax, rfl⟩, rfl⟩
    exact ⟨rfl, hmin, hmax⟩
  · rintro ⟨rfl, hmin, hmax⟩
    refine ⟨?_, bs, Base64url.decode_encode bs, ⟨hmin, hmax, rfl⟩, rfl⟩
    rw [Base64url.size_encode]
    omega

theorem frame_eq_some {s : String} {min max : Nat} {bs : Bytes} :
    frame s min max = some bs ↔ (s = Base64url.encode bs ∧ min ≤ bs.length ∧ bs.length ≤ max) ∧ bs.head? = some 2 := by
  simp only [frame, Option.filter_eq_some_iff, decode_eq_some, decide_eq_true_eq]

theorem expectedRevision_range {request : Request} {n : Int} (h : request.expectedRevision = some n) :
    n = -1 ∨ 0 < n ∧ n < 9007199254740991 := by
  unfold Request.expectedRevision at h
  split at h
  · cases h
  · split at h
    · cases h
      exact .inl rfl
    · simp only [Option.bind_eq_bind, Option.bind_eq_some_iff] at h
      obtain ⟨-, -, -, -, revision, -, h⟩ := h
      split at h
      · cases h
        exact .inr ‹_›
      · cases h

theorem answer_eq_ok {α : Type} {status : Nat} {code : String} {x : Option α} {a : α} : answer status code x = .ok a ↔ x = some a := by
  cases x with
  | none => simp [answer]
  | some b => simp [answer]

/-! ## The batch -/

/-- A batch that is allowed and passes the checks is applied. -/
theorem Commit.run_complete {c : Commit} (hd : Keyed d) (ha : c.allowed d) (hcheck : c.row.Check)
    (hguard : ∀ x ∈ d.candidates, x.state = .deleting → some x.objectKey ≠ c.objectKey) (hunshared : c.unshared d)
    (hreceipt : (c.receipt d.clock).Check) : ∃ d', c.run d = some d' := by
  have hfresh : ∀ m ∈ d.mutations, m.key ≠ (c.receipt d.clock).key := by
    obtain ⟨-, -, -, -, hfresh, -⟩ := ha
    exact fun m hm he => hfresh ⟨m, hm, he⟩
  have hinsert : insert MutationRow.key MutationRow.Check (c.receipt d.clock) d.mutations = some (d.mutations ++ [c.receipt d.clock]) :=
    insert_eq_some.mpr ⟨⟨hreceipt, hfresh⟩, rfl⟩
  have hrequire : require (∀ x ∈ d.candidates, x.state = .deleting → some x.objectKey ≠ c.objectKey) = some () := require_eq_some.mpr hguard
  have hunique : require (c.unshared d) = some () := require_eq_some.mpr hunshared
  unfold Commit.run Commit.upsert
  rw [if_pos ha]
  simp only [Option.bind_eq_bind, hrequire, Option.bind_some]
  cases hl : lookup HeadRow.slot c.slot d.heads with
  | none =>
    have hhead : insert HeadRow.slot HeadRow.Check c.row d.heads = some (d.heads ++ [c.row]) :=
      insert_eq_some.mpr ⟨⟨hcheck, lookup_eq_none.mp hl⟩, rfl⟩
    simp only [hhead, hunique, Option.bind_some, Option.pure_def, if_true, hinsert]
    exact ⟨_, rfl⟩
  | some x =>
    obtain ⟨hx, hslot⟩ := lookup_mem hl
    have hexpects : c.expects x := by
      obtain ⟨-, -, -, -, -, hcur, -⟩ := ha
      rcases hcur with ⟨-, hno⟩ | ⟨-, y, hy, hyslot, hye⟩
      · exact absurd ⟨x, hx, hslot⟩ hno
      · rwa [hd.heads.eq hy hx (hyslot.trans hslot.symm)] at hye
    have hrow := c.row_eq hslot hexpects (hd.checked x hx).2.2.2.2.2.1
    have hreplaced : require c.row.Check = some () := require_eq_some.mpr hcheck
    simp only [if_pos hexpects, hrow, hreplaced, hunique, Option.bind_some, Option.pure_def, if_true, hinsert]
    exact ⟨_, rfl⟩

/-! ## What is admitted -/

/-- What a PUT brings. -/
structure Framed (collection kind : String) (content : Bytes × String) : Prop where
  bytes : 29 ≤ content.1.length ∧ content.1.length ≤ ciphertextLimit collection kind
  head : content.1.head? = some 2
  envelope : ∃ bs, frame content.2 61 61 = some bs

theorem brought_framed {collection body : String} {want : Wanted} (h : brought collection false body = .ok want) :
    ∃ x, want.content = some x ∧ Framed collection want.value.kind x := by
  simp only [brought, Bool.false_eq_true, if_false] at h
  obtain ⟨value, -, h⟩ := Checks.bind_eq_ok.mp h
  obtain ⟨ciphertext, hcipher, h⟩ := Checks.bind_eq_ok.mp h
  obtain ⟨envelope, henvelope, h⟩ := Checks.bind_eq_ok.mp h
  cases h
  obtain ⟨⟨-, hsize⟩, hhead⟩ := frame_eq_some.mp (answer_eq_ok.mp hcipher)
  exact ⟨_, rfl, hsize, hhead, envelope, answer_eq_ok.mp henvelope⟩

theorem wanted_framed {collection body : String} {expected : Int} {want : Wanted} (h : wanted collection false expected body = .ok want) :
    ∃ x, want.content = some x ∧ Framed collection want.value.kind x := by
  obtain ⟨w, hw, h⟩ := Checks.bind_eq_ok.mp h
  rw [Checks.check_bind_eq_ok, Checks.pure_eq_ok] at h
  obtain ⟨-, rfl⟩ := h
  exact brought_framed hw

/-- What is asked of the fields of a body. -/
structure Proper (value : DeleteBody) : Prop where
  identifiers : identifier value.vaultId = true ∧ identifier value.kind = true
  numbers : inRange value.keyGeneration = true ∧ inRange value.ownerKeyRevision = true

theorem wanted_proper {collection body : String} {deleted : Bool} {expected : Int} {want : Wanted}
    (h : wanted collection deleted expected body = .ok want) : Proper want.value := by
  obtain ⟨w, -, h⟩ := Checks.bind_eq_ok.mp h
  rw [Checks.check_bind_eq_ok, Checks.denyIf_eq_ok, Checks.pure_eq_ok] at h
  obtain ⟨hno, rfl⟩ := h
  simp only [not_or, Bool.not_eq_false] at hno
  exact ⟨⟨hno.2.1, hno.2.2.1⟩, hno.2.2.2.1, hno.2.2.2.2.1⟩

/-- A request that is admitted, from an owner with a root key. -/
structure Admits (d : Db) (request : Request) (collection record : String) (deleted : Bool) (a : Admitted) (root : Root) : Prop where
  bucket : request.bucket = true
  named : a.By request collection record deleted
  sameOrigin : request.sameOrigin = true
  precondition : ¬((deleted = true ∧ a.expected = -1) ∨ (a.expected > 0 ∧ request.ifMatch ≠ some (quoted a.expected)))
  operation : ∃ bs, decode a.operation 32 32 = some bs
  owner : ∃ cookie now, request.cookie = some cookie ∧ request.clock 0 = some now ∧
    d.around.owner (Base64url.encode (Sha.sha256 (Text.bytes cookie))) now = some a.owner
  json : request.contentType = some "application/json"
  size : a.body.utf8ByteSize ≤ bodyLimit collection deleted
  rooted : authority d a.owner = some root
  supported : root.supported request.url = true
  vault : root.vaultId = a.want.value.vaultId

/-- What the store must have for a write: the head that is expected, and room for it under a new operation and a new key. -/
structure Takes (d : Db) (collection record : String) (deleted : Bool) (a : Admitted) (root : Root) (key : String) : Prop where
  keyed : Keyed d
  current : root.keyGeneration = a.want.value.keyGeneration ∧ root.revision = a.want.value.ownerKeyRevision
  operation : ∀ m ∈ d.mutations, m.key ≠ (a.owner.accountId, a.operation)
  head : (a.expected = -1 ∧ ∀ h ∈ d.heads, h.slot ≠ a.slot collection record root) ∨
    ∃ h ∈ d.heads, h.slot = a.slot collection record root ∧ h.revision = a.expected ∧ h.kind = a.want.value.kind ∧
      h.keyGeneration = root.keyGeneration ∧ (h.deleted = false ∨ deleted = false)
  recent : (d.mutations.filter fun m => m.accountId = a.owner.accountId ∧ m.createdAt + 60 > d.clock).length < 20
  slots : a.expected > 0 ∨ (d.heads.filter fun h => h.accountId = a.owner.accountId).length < 256
  key : (∀ x ∈ d.candidates, x.objectKey ≠ key) ∧ (∀ o ∈ d.bucket, o.key ≠ key) ∧ ∀ h ∈ d.heads, h.objectKey ≠ some key

section
variable {request : Request} {collection record : String} {deleted : Bool} {a : Admitted} {root : Root} {key : String}

theorem alone_owner {cookie : String} {now : Nat} (hcookie : request.cookie = some cookie) (hclock : request.clock 0 = some now) {o : Option Owner}
    (ho : d.around.owner (Base64url.encode (Sha.sha256 (Text.bytes cookie))) now = o) :
    alone system Failure.server (@owner Db Tx Base64.url Db.around request 0 : Route (Option Owner)).run d = (.ok o, d) := by
  unfold owner Request.now
  rw [hcookie, alone_run_bind _ (alone_demand_some hclock _), alone_run_bind _ alone_read]
  exact congrArg (fun o => (Except.ok o, d)) ho

theorem alone_decided {α : Type} (x : α) : alone system Failure.server (decided (.ok x) : Route α).run d = (.ok x, d) := rfl

theorem alone_admission (h : Admits d request collection record deleted a root) :
    alone system Failure.server (admission request collection record deleted).run d = (.ok a, d) := by
  obtain ⟨cookie, now, hcookie, hclock, howner⟩ := h.owner
  obtain ⟨bs, hbs⟩ := h.operation
  have hnamed : ¬(identifier collection = false ∨ identifier record = false) := by simp [h.named.named]
  have hoperation : request.operationId.filter (fun id => (decode id 32 32).isSome) = some a.operation := by
    rw [h.named.operation, Option.filter_some, hbs]
    rfl
  have hbody : request.body.filter (fun body => body.utf8ByteSize ≤ bodyLimit collection deleted) = some a.body := by
    rw [h.named.body, Option.filter_some, if_pos (decide_eq_true h.size)]
  unfold admission
  rw [alone_run_bind _ (alone_fails_neg (by simp [h.bucket]) _), alone_run_bind _ (alone_fails_neg hnamed _),
    alone_run_bind _ (alone_fails_neg (by simp [h.sameOrigin]) _), alone_run_bind _ (alone_demand_some h.named.expected _),
    alone_run_bind _ (alone_fails_neg h.precondition _), alone_run_bind _ (alone_demand_some hoperation _),
    alone_run_bind _ (alone_owner hcookie hclock howner), alone_run_bind _ (alone_demand_some rfl _),
    alone_run_bind _ (alone_fails_neg (by simp [h.json]) _), alone_run_bind _ (alone_demand_some hbody _), h.named.want,
    alone_run_bind _ (alone_decided _)]
  rfl

/-! ## The upload -/

/-- What comes of an upload: the object behind its candidate, and nothing else. -/
structure Uploads (d e : Db) (content : Option (Bytes × String)) (key : String) : Prop where
  same : e.heads = d.heads ∧ e.mutations = d.mutations ∧ e.around = d.around ∧ e.roots = d.roots ∧ e.wraps = d.wraps
  keyed : Keyed e
  pending : ∀ x ∈ content, (∃ c ∈ e.candidates, c.objectKey = key ∧ c.state = .pending) ∧
    ∀ c ∈ e.candidates, c.state = .deleting → c.objectKey ≠ key
  object : ∀ x ∈ content, ∃ o ∈ e.bucket, o.key = key ∧ o.bytes = x.1

theorem alone_commit {tx : Tx} (h : Tx.run tx d = some d') : alone system Failure.server (commit tx : Route Unit).run d = (.ok (), d') := by
  have hstep : alone system Failure.server (commit tx : Route Unit).run d =
      match Tx.run tx d with
      | some d' => (.ok (), d')
      | none => (.error Failure.server, d) := by
    unfold Transactions.commit
    cases h : Tx.run tx d <;> simp [Prog.query, alone, system, h] <;> rfl
  rw [hstep, h]

theorem alone_attempt {α : Type} {x : Route α} {b : α} (h : alone system Failure.server x.run d = (.ok b, d')) :
    alone system Failure.server (attempt x : Route (Except Failure α)).run d = (.ok (.ok b), d') := by
  show alone system Failure.server (x.run >>= fun r => .ret (Except.ok r)) d = _
  rw [alone_bind, h]
  rfl

theorem alone_store (h : Takes d collection record deleted a root key) (content : Option (Bytes × String)) :
    ∃ e, alone system Failure.server (store content key).run d = (.ok (), e) ∧ Uploads d e content key := by
  cases content with
  | none =>
    have hnone : ∀ {P : Bytes × String → Prop}, ∀ x ∈ (none : Option (Bytes × String)), P x := by simp
    exact ⟨d, rfl, ⟨rfl, rfl, rfl, rfl, rfl⟩, h.keyed, hnone, hnone⟩
  | some x =>
    obtain ⟨bytes, envelope⟩ := x
    obtain ⟨hcandidates, hbucket, -⟩ := h.key
    have hregister : Tx.run (.register key) d = some { d with candidates := d.candidates ++ [⟨key, d.clock + grace, .pending⟩] } := by
      have hi : insert CandidateRow.objectKey (fun _ => True) ⟨key, d.clock + grace, .pending⟩ d.candidates = some _ :=
        insert_eq_some.mpr ⟨⟨trivial, hcandidates⟩, rfl⟩
      simp only [Tx.run, hi]
      rfl
    have hupload : Tx.run (.upload key bytes) { d with candidates := d.candidates ++ [⟨key, d.clock + grace, .pending⟩] } =
        some { d with
          candidates := d.candidates ++ [⟨key, d.clock + grace, .pending⟩], bucket := d.bucket ++ [⟨key, bytes, d.bucketClock⟩] } := by
      have hi : insert Object.key (fun _ => True) ⟨key, bytes, d.bucketClock⟩ d.bucket = some _ :=
        insert_eq_some.mpr ⟨⟨trivial, hbucket⟩, rfl⟩
      simp only [Tx.run, hi]
      rfl
    refine ⟨{ d with candidates := d.candidates ++ [⟨key, d.clock + grace, .pending⟩], bucket := d.bucket ++ [⟨key, bytes, d.bucketClock⟩] },
      ?_, ⟨rfl, rfl, rfl, rfl, rfl⟩, (h.keyed.run hregister).run hupload, fun x hx => ⟨?_, ?_⟩, fun x hx => ?_⟩
    · unfold store
      rw [alone_run_bind _ (alone_commit hregister), alone_run_bind _ (alone_attempt (alone_commit hupload))]
      rfl
    · exact ⟨_, List.mem_append_right _ (List.mem_singleton_self _), rfl, rfl⟩
    · intro c hc hdeleting
      rcases mem_snoc.mp hc with hc | rfl
      · exact hcandidates c hc
      · cases hdeleting
    · cases hx
      exact ⟨_, List.mem_append_right _ (List.mem_singleton_self _), rfl, rfl⟩

/-! ## The batch is allowed -/

theorem authority_spec {o : Owner} (h : authority d o = some root) : d.around.authorised o.accountId o.credentialId o.secretHash d.clock ∧
    ∃ x ∈ d.roots, (x.accountId = o.accountId ∧ ∃ w ∈ d.wraps, w.key = (x.accountId, x.keyGeneration, o.credentialId)) ∧
      root = ⟨x.vaultId, x.origin, x.keyGeneration, x.revision, x.formatVersion, x.suite, d.clock⟩ := by
  unfold authority at h
  split at h
  · obtain ⟨x, hx, rfl⟩ := Option.map_eq_some_iff.mp h
    exact ⟨‹_›, x, List.mem_of_find?_eq_some hx, by simpa using List.find?_some hx, rfl⟩
  · cases h

theorem authority_congr {e : Db} (hd : e.around = d.around ∧ e.roots = d.roots ∧ e.wraps = d.wraps) (o : Owner) :
    authority e o = authority d o := by
  unfold authority Db.clock
  rw [hd.1, hd.2.1, hd.2.2]

theorem Admits.rooted_commit (h : Admits d request collection record deleted a root) {e : Db} (hroots : e.roots = d.roots)
    (hwraps : e.wraps = d.wraps) : (a.commit collection record deleted root key).rooted e := by
  obtain ⟨-, x, hx, ⟨haccount, w, hw, hkey⟩, rfl⟩ := authority_spec h.rooted
  have hsupported := h.supported
  simp only [Root.supported, Bool.and_eq_true, beq_iff_eq] at hsupported
  refine ⟨x, hroots ▸ hx, ⟨w, hwraps ▸ hw, hkey⟩, haccount, rfl, rfl, rfl, rfl, hsupported.1.1.1.1, hsupported.1.1.1.2⟩

theorem allowed_commit (h : Admits d request collection record deleted a root) (ht : Takes d collection record deleted a root key) {e : Db}
    (hu : Uploads d e a.want.content key) : (a.commit collection record deleted root key).allowed e := by
  obtain ⟨hheads, hmutations, haround, hroots, hwraps⟩ := hu.same
  have hclock : e.clock = d.clock := congrArg Accounts.unixepoch haround
  have hobserved := authority_observed h.rooted
  have hrange := expectedRevision_range h.named.expected
  have hprecondition := h.precondition
  refine ⟨rfl, ?_, ?_, ?_, ?_, ?_, ?_, h.rooted_commit hroots hwraps, ?_, ?_⟩
  · cases deleted with
    | false => exact .inl rfl
    | true =>
      refine .inr ?_
      show a.expected > 0
      rcases hrange with he | he
      · exact absurd (.inl ⟨rfl, he⟩) hprecondition
      · exact he.1
  · intro k hk
    obtain ⟨x, hx, rfl⟩ := Option.map_eq_some_iff.mp hk
    exact (hu.pending x hx).1
  · show root.observedAt ≤ e.clock ∧ e.clock ≤ root.observedAt + 300
    omega
  · rintro ⟨m, hm, hkey⟩
    exact ht.operation m (hmutations ▸ hm) hkey
  · rcases ht.head with ⟨he, hfree⟩ | ⟨x, hx, hslot, hrevision, hkind, hgeneration, hlive⟩
    · refine .inl ⟨he, ?_⟩
      rintro ⟨x, hx, hslot⟩
      exact hfree x (hheads ▸ hx) hslot
    · refine .inr ⟨?_, x, hheads ▸ hx, hslot, hrevision, hkind, hgeneration, hlive⟩
      obtain ⟨-, -, -, ⟨hpos, -⟩, -⟩ := ht.keyed.checked x hx
      show a.expected > 0
      omega
  · rw [haround, hclock]
    exact (authority_spec h.rooted).1
  · rw [hmutations, hclock]
    exact ht.recent
  · rw [hheads]
    exact ht.slots

theorem nextRevision_range {n : Int} (h : n = -1 ∨ 0 < n ∧ n < 9007199254740991) : 1 ≤ nextRevision n ∧ nextRevision n ≤ maxSafe := by
  unfold nextRevision maxSafe
  split <;> omega

theorem inRange_eq_true {n : Int} : inRange n = true ↔ 1 ≤ n ∧ n ≤ maxSafe := by
  simp [inRange]

theorem check_commit (h : Admits d request collection record deleted a root) (ht : Takes d collection record deleted a root key) :
    (a.commit collection record deleted root key).row.Check := by
  have hproper := wanted_proper h.named.want
  have hgeneration := inRange_eq_true.mp hproper.numbers.1
  rw [← ht.current.1] at hgeneration
  refine ⟨length_identifier h.named.named.1, length_identifier h.named.named.2, length_identifier hproper.identifiers.2,
    nextRevision_range (expectedRevision_range h.named.expected), hgeneration, rfl, ?_⟩
  cases deleted with
  | true =>
    have hcontent := wanted_deleted h.named.want
    refine .inl ⟨rfl, ?_, ?_, ?_⟩ <;> simp only [Admitted.commit, Commit.row, hcontent, Option.map_none]
  | false =>
    obtain ⟨x, hcontent, hframed⟩ := wanted_framed h.named.want
    obtain ⟨bs, hbs⟩ := hframed.envelope
    obtain ⟨⟨henvelope, hmin, hmax⟩, -⟩ := frame_eq_some.mp hbs
    have hlength : x.2.length = 82 := by
      rw [henvelope, length_encode]
      omega
    refine .inr ⟨rfl, ?_, ?_, ?_⟩
    · simp only [Admitted.commit, Commit.row, hcontent, Option.map_some, Option.isSome_some]
    · simp only [Admitted.commit, Commit.row, hcontent, Option.map_some]
      exact congrArg some (length_digest x.1)
    · simp only [Admitted.commit, Commit.row, hcontent, Option.map_some, hlength]

theorem check_receipt (h : Admits d request collection record deleted a root) (now : Nat) :
    ((a.commit collection record deleted root key).receipt now).Check := by
  obtain ⟨bs, hbs⟩ := h.operation
  obtain ⟨hoperation, hmin, hmax⟩ := decode_eq_some.mp hbs
  have hlength : bs.length = 32 := by omega
  refine ⟨?_, length_digest _, nextRevision_range (expectedRevision_range h.named.expected)⟩
  show a.operation.length = 43
  rw [hoperation, length_encode, hlength]

/-- What comes of a write. -/
structure Done (d e : Db) (c : Commit) (content : Option (Bytes × String)) : Prop where
  keyed : Keyed e
  same : e.around = d.around ∧ e.roots = d.roots ∧ e.wraps = d.wraps
  head : ∀ slot, lookup HeadRow.slot slot e.heads = if c.slot = slot then some c.row else lookup HeadRow.slot slot d.heads
  receipt : lookup MutationRow.key (c.accountId, c.operation) e.mutations = some (c.receipt d.clock)
  object : ∀ x ∈ content, ∃ key o, c.objectKey = some key ∧ lookup Object.key key e.bucket = some o ∧ o.bytes = x.1

theorem alone_batch (h : Admits d request collection record deleted a root) (ht : Takes d collection record deleted a root key) {e : Db}
    (hu : Uploads d e a.want.content key) :
    ∃ f, Tx.run (.commit (a.commit collection record deleted root key)) e = some f ∧
      Done d f (a.commit collection record deleted root key) a.want.content := by
  obtain ⟨hheads, hmutations, haround, hroots, hwraps⟩ := hu.same
  have hguard : ∀ x ∈ e.candidates, x.state = .deleting → some x.objectKey ≠ (a.commit collection record deleted root key).objectKey := by
    intro x hx hdeleting hkey
    obtain ⟨y, hy, hk⟩ := Option.map_eq_some_iff.mp hkey.symm
    exact (hu.pending y hy).2 x hx hdeleting hk.symm
  have hunshared : (a.commit collection record deleted root key).unshared e := by
    intro x hx _ hsome hkey
    obtain ⟨k, hk⟩ := Option.isSome_iff_exists.mp hsome
    rw [hk] at hkey
    obtain ⟨y, hy, rfl⟩ := Option.map_eq_some_iff.mp hkey.symm
    exact ht.key.2.2 x (hheads ▸ hx) hk
  obtain ⟨f, hf⟩ := Commit.run_complete hu.keyed (allowed_commit h ht hu) (check_commit h ht) hguard hunshared (check_receipt h _)
  have hmoves := Commit.run_allowed hu.keyed hf (allowed_commit h ht hu)
  have hrun : Tx.run (.commit (a.commit collection record deleted root key)) e = some f := hf
  have hkeyed : Keyed f := hu.keyed.run hrun
  obtain ⟨old, -, hwritten⟩ := hmoves.written
  have hbucket : f.bucket = e.bucket := by rw [hwritten]
  refine ⟨f, hf, hkeyed, ?_, fun slot => ?_, ?_, fun x hx => ?_⟩
  · rw [hwritten]
    exact ⟨haround, hroots, hwraps⟩
  · rw [hmoves.lookup_heads hu.keyed, hheads]
  · have hclock : e.clock = d.clock := congrArg Accounts.unixepoch haround
    refine hkeyed.mutations.lookup.mpr ⟨?_, rfl⟩
    rw [← hclock]
    exact commit_receipt hu.keyed hf (allowed_commit h ht hu)
  · obtain ⟨o, ho, hk, hbytes⟩ := hu.object x hx
    refine ⟨key, o, ?_, hkeyed.bucket.lookup.mpr ⟨hbucket ▸ ho, hk⟩, hbytes⟩
    simp only [Admitted.commit, Option.mem_def.mp hx, Option.map_some]

/-! ## A write -/

theorem stillAuthorized_of {o : Owner} (h : authority d o = some root) : stillAuthorized d o root = true := by
  simp [stillAuthorized, h, Root.same]

theorem alone_outcome {m : MutationRow} {hash : String} (h : m.requestHash = hash) :
    alone system Failure.server (outcome m hash).run d = (.ok (m.resultRevision, m.deleted), d) := by
  unfold outcome
  rw [alone_run_bind _ (alone_fails_neg (not_not.mpr h) _)]
  rfl

theorem mutation_of {account operation : String} {m : MutationRow} (h : lookup MutationRow.key (account, operation) d.mutations = some m)
    (hd : Unique MutationRow.key d.mutations) (ht : d.clock ≤ m.createdAt + retention) : mutation d account operation = some m := by
  obtain ⟨hm, hk⟩ := lookup_mem h
  exact (hd.filter _).lookup.mpr ⟨List.mem_filter.mpr ⟨hm, by simpa using ht⟩, hk⟩

theorem alone_reconcile_none {hash : String} (h : ∀ m ∈ d.mutations, m.key ≠ (a.owner.accountId, a.operation)) :
    alone system Failure.server (reconcile a root hash).run d = (.ok none, d) := by
  have hnone : mutation d a.owner.accountId a.operation = none := lookup_eq_none.mpr fun m hm => h m (List.mem_of_mem_filter hm)
  unfold reconcile
  rw [alone_run_bind _ alone_read, hnone]
  rfl

theorem alone_checked {hash : String} (h : Takes d collection record deleted a root key) :
    alone system Failure.server (checked collection record deleted a root hash).run d = (.ok none, d) := by
  have hcurrent : ¬(root.keyGeneration ≠ a.want.value.keyGeneration ∨ root.revision ≠ a.want.value.ownerKeyRevision) := by simp [h.current]
  have hconflict : conflict a deleted root (lookup HeadRow.slot (a.slot collection record root) d.heads) = none := by
    rcases h.head with ⟨he, hfree⟩ | ⟨x, hx, hslot, hrevision, hkind, hgeneration, hlive⟩
    · rw [lookup_eq_none.mpr hfree]
      simp [conflict, he]
    · rw [h.keyed.heads.lookup.mpr ⟨hx, hslot⟩]
      obtain ⟨-, -, -, ⟨hpos, -⟩, -⟩ := h.keyed.checked x hx
      have hne : a.expected ≠ -1 := by omega
      have hdeleted : ¬(deleted = true ∧ x.deleted = true) := by
        rintro ⟨rfl, hd⟩
        rcases hlive with hl | hl
        · rw [hd] at hl
          cases hl
        · cases hl
      simp [conflict, hne, hdeleted, hrevision, hkind, hgeneration]
  have hroom : exceeded a d = none := by
    have hrecent := h.recent
    have hslots := h.slots
    unfold exceeded
    rw [if_neg (by omega), if_neg (by omega)]
  unfold checked
  rw [alone_run_bind _ (alone_fails_neg hcurrent _), alone_run_bind _ alone_read, hconflict, alone_run_bind _ alone_read, hroom]
  rfl

/-- A request that is admitted and that the store can take is done. -/
theorem write_alone (h : Admits d request collection record deleted a root) (ht : Takes d collection record deleted a root key) :
    ∃ f, alone system Failure.server (write request collection record deleted key).run d = (.ok (nextRevision a.expected, deleted), f) ∧
      Done d f (a.commit collection record deleted root key) a.want.content := by
  obtain ⟨e, hstore, hu⟩ := alone_store ht a.want.content
  obtain ⟨f, hf, hdone⟩ := alone_batch h ht hu
  have hprepare : alone system Failure.server (prepare request collection record deleted).run d = (.ok (a, root, none), d) := by
    have hroot : ¬(root.supported request.url = false ∨ root.vaultId ≠ a.want.value.vaultId) := by simp [h.supported, h.vault]
    unfold prepare
    rw [alone_run_bind _ (alone_admission h), alone_run_bind _ alone_read, alone_run_bind _ (alone_demand_some h.rooted _),
      alone_run_bind _ (alone_fails_neg hroot _), alone_run_bind _ (alone_reconcile_none ht.operation)]
    simp only
    rw [alone_run_bind _ (alone_checked ht)]
    rfl
  have hfclock : f.clock = d.clock := congrArg Accounts.unixepoch hdone.same.1
  have hauthority : authority f a.owner = some root := (authority_congr hdone.same a.owner).trans h.rooted
  have hmutation := mutation_of hdone.receipt hdone.keyed.mutations
    (show f.clock ≤ d.clock + retention by omega)
  have hmutation' : mutation f a.owner.accountId a.operation = some ((a.commit collection record deleted root key).receipt d.clock) := hmutation
  refine ⟨f, ?_, hdone⟩
  unfold write
  rw [alone_run_bind _ hprepare]
  simp only
  rw [alone_run_bind _ hstore]
  unfold finish
  rw [alone_run_bind _ (alone_attempt (alone_commit hf)), alone_run_bind _ alone_read, alone_run_bind _ alone_read,
    alone_run_bind _ (alone_fails_neg (by simp [stillAuthorized_of hauthority]) _), hmutation']
  exact alone_outcome rfl

/-- The request sent again has the answer of the first one, and changes nothing. -/
theorem retry_alone (h : Admits d request collection record deleted a root) {m : MutationRow}
    (hm : mutation d a.owner.accountId a.operation = some m) (hhash : m.requestHash = a.hash collection record deleted) :
    alone system Failure.server (write request collection record deleted key).run d = (.ok (m.resultRevision, m.deleted), d) := by
  have hroot : ¬(root.supported request.url = false ∨ root.vaultId ≠ a.want.value.vaultId) := by simp [h.supported, h.vault]
  have hreconcile : alone system Failure.server (reconcile a root (a.hash collection record deleted)).run d =
      (.ok (some (m.resultRevision, m.deleted)), d) := by
    unfold reconcile
    rw [alone_run_bind _ alone_read, hm]
    simp only
    rw [alone_run_bind _ alone_read, alone_run_bind _ (alone_fails_neg (by simp [stillAuthorized_of h.rooted]) _),
      alone_run_bind _ (alone_outcome hhash)]
    rfl
  have hprepare : alone system Failure.server (prepare request collection record deleted).run d =
      (.ok (a, root, some (m.resultRevision, m.deleted)), d) := by
    unfold prepare
    rw [alone_run_bind _ (alone_admission h), alone_run_bind _ alone_read, alone_run_bind _ (alone_demand_some h.rooted _),
      alone_run_bind _ (alone_fails_neg hroot _), alone_run_bind _ hreconcile]
    rfl
  unfold write
  rw [alone_run_bind _ hprepare]
  rfl

/-! ## A read -/

/-- A reader with a live session, whose account has a root key. -/
structure Reads (d : Db) (request : Request) (collection record : String) (o : Owner) (root : Root) : Prop where
  bucket : request.bucket = true
  named : identifier collection = true ∧ identifier record = true
  owner : ∃ cookie now, request.cookie = some cookie ∧ request.clock 0 = some now ∧
    d.around.owner (Base64url.encode (Sha.sha256 (Text.bytes cookie))) now = some o
  rooted : authority d o = some root
  supported : root.supported request.url = true

/-- A live head of the root key's generation is read with its object. -/
theorem get_alone {o : Owner} (h : Reads d request collection record o root) (hd : Keyed d) {x : HeadRow}
    (hx : lookup HeadRow.slot (o.accountId, root.vaultId, collection, record) d.heads = some x) (hgeneration : x.keyGeneration = root.keyGeneration)
    (hlive : x.deleted = false) {content : Bytes × String} (hframed : Framed collection x.kind content) (henvelope : x.keyEnvelope = some content.2)
    (hdigest : x.ciphertextSha256 = some (digest content.1)) {b : Object} (hkey : x.objectKey = some key)
    (hobject : lookup Object.key key d.bucket = some b) (hbytes : b.bytes = content.1) :
    alone system Failure.server (get request collection record).run d = (.ok (.live root x content.1), d) := by
  obtain ⟨cookie, now, hcookie, hclock, howner⟩ := h.owner
  obtain ⟨bs, hbs⟩ := hframed.envelope
  have hnamed : ¬(identifier collection = false ∨ identifier record = false) := by simp [h.named]
  have hcurrent : ¬(x.formatVersion ≠ 2 ∨ x.keyGeneration ≠ root.keyGeneration) := by
    obtain ⟨-, -, -, -, -, hformat, -⟩ := hd.checked x (lookup_mem hx).1
    simp [hformat, hgeneration]
  have hvalid : ¬(b.bytes.length < 29 ∨ b.bytes.length > ciphertextLimit collection x.kind ∨ b.bytes.head? ≠ some 2 ∨
      Base64url.encode (Sha.sha256 b.bytes) ≠ digest content.1) := by
    rw [hbytes]
    simp only [not_or, not_lt, not_not]
    exact ⟨hframed.bytes.1, hframed.bytes.2, hframed.head, rfl⟩
  have hlive' : ¬x.deleted = true := by simp [hlive]
  have hstill := stillAuthorized_of h.rooted
  unfold get
  rw [alone_run_bind _ (alone_fails_neg (by simp [h.bucket]) _), alone_run_bind _ (alone_fails_neg hnamed _),
    alone_run_bind _ (alone_owner hcookie hclock howner), alone_run_bind _ (alone_demand_some rfl _), alone_run_bind _ alone_read,
    alone_run_bind _ (alone_demand_some h.rooted _), alone_run_bind _ (alone_fails_neg (by simp [h.supported]) _)]
  simp only
  rw [alone_run_bind _ alone_read, hx]
  simp only
  rw [alone_run_bind _ (alone_fails_neg hcurrent _), if_neg hlive', alone_run_bind _ (alone_demand_some hkey _),
    alone_run_bind _ (alone_demand_some hdigest _), alone_run_bind _ (alone_demand_some henvelope _),
    alone_run_bind _ (alone_fails_neg (by simp [hbs]) _), alone_run_bind _ alone_read, alone_run_bind _ (alone_demand_some hobject _),
    alone_run_bind _ (alone_fails_neg hvalid _), alone_run_bind _ alone_read, alone_run_bind _ (alone_fails_neg (not_not.mpr hx) _),
    alone_run_bind _ alone_read, alone_run_bind _ (alone_fails_neg (by simp [hstill]) _), hbytes]
  rfl

/-- A deleted record is read as deleted. -/
theorem get_deleted_alone {o : Owner} (h : Reads d request collection record o root) (hd : Keyed d) {x : HeadRow}
    (hx : lookup HeadRow.slot (o.accountId, root.vaultId, collection, record) d.heads = some x) (hgeneration : x.keyGeneration = root.keyGeneration)
    (hdeleted : x.deleted = true) : alone system Failure.server (get request collection record).run d = (.ok (.deleted x), d) := by
  obtain ⟨cookie, now, hcookie, hclock, howner⟩ := h.owner
  have hnamed : ¬(identifier collection = false ∨ identifier record = false) := by simp [h.named]
  have hcurrent : ¬(x.formatVersion ≠ 2 ∨ x.keyGeneration ≠ root.keyGeneration) := by
    obtain ⟨-, -, -, -, -, hformat, -⟩ := hd.checked x (lookup_mem hx).1
    simp [hformat, hgeneration]
  have hstill := stillAuthorized_of h.rooted
  unfold get
  rw [alone_run_bind _ (alone_fails_neg (by simp [h.bucket]) _), alone_run_bind _ (alone_fails_neg hnamed _),
    alone_run_bind _ (alone_owner hcookie hclock howner), alone_run_bind _ (alone_demand_some rfl _), alone_run_bind _ alone_read,
    alone_run_bind _ (alone_demand_some h.rooted _), alone_run_bind _ (alone_fails_neg (by simp [h.supported]) _)]
  simp only
  rw [alone_run_bind _ alone_read, hx]
  simp only
  rw [alone_run_bind _ (alone_fails_neg hcurrent _), if_pos hdeleted, alone_run_bind _ alone_read,
    alone_run_bind _ (alone_fails_neg (by simp [hstill]) _)]
  rfl

end

/-! ## In a run -/

section
variable {ι : Type}

/-- The transactions of a write. -/
def Saving : Tx → Prop
  | .register _ | .upload _ _ | .commit _ => True
  | _ => False

theorem commits_reads {α : Type} {x : Route α} (h : Prog.Only (· = .read) x.run) : Prog.Only (Request.commits Saving) x.run :=
  h.weaken fun r hr => by
    rw [hr]
    trivial

theorem commits_commit (tx : Tx) (h : Saving tx) : Prog.Only (Request.commits Saving) (commit tx : Route Unit).run := .call h fun _ => .ret _

theorem commits_write (request : Request) (collection record : String) (deleted : Bool) (key : String) :
    Prog.Only (Request.commits Saving) (write request collection record deleted key).run := by
  refine (commits_reads (reads_prepare request collection record deleted)).andThen fun r => ?_
  obtain ⟨a, root, answered⟩ := r
  cases answered with
  | some o => exact .ret _
  | none =>
    refine Only.andThen ?_ fun _ => ?_
    · cases a.want.content with
      | none => exact .ret _
      | some x =>
        refine (commits_commit (.register key) trivial).andThen fun _ => ?_
        refine (Only.attempt (commits_commit (.upload key x.1) trivial)).andThen fun r => ?_
        cases r with
        | ok u => exact .ret _
        | error e => exact .ret _
    · refine (Only.attempt (commits_commit (.commit _) trivial)).andThen fun committed => commits_reads ?_
      refine only_read fun d => only_read fun d' => (Only.fails _ _).andThen fun _ => ?_
      cases mutation d a.owner.accountId a.operation with
      | some previous => exact reads_outcome _ _
      | none =>
        cases committed with
        | error e => exact .ret _
        | ok u => exact .ret _

theorem reads_get (request : Request) (collection record : String) : Prog.Only (· = .read) (get request collection record).run := by
  refine (Only.fails _ _).andThen fun _ => (Only.fails _ _).andThen fun _ => (reads_owner _ _).andThen fun found => ?_
  refine (only_demand _ _).andThen fun o => only_read fun d => (only_demand _ _).andThen fun root => (Only.fails _ _).andThen fun _ => ?_
  refine only_read fun d => ?_
  cases lookup HeadRow.slot (o.accountId, root.vaultId, collection, record) d.heads with
  | none => exact only_read fun d => (Only.fails _ _).andThen fun _ => .ret _
  | some selected =>
    refine (Only.fails _ _).andThen fun _ => ?_
    by_cases hdeleted : selected.deleted = true
    · simp only [if_pos hdeleted]
      exact only_read fun d => (Only.fails _ _).andThen fun _ => .ret _
    · simp only [if_neg hdeleted]
      refine (only_demand _ _).andThen fun key => (only_demand _ _).andThen fun digest => (only_demand _ _).andThen fun envelope => ?_
      refine (Only.fails _ _).andThen fun _ => only_read fun d => (only_demand _ _).andThen fun object => (Only.fails _ _).andThen fun _ => ?_
      exact only_read fun d => (Only.fails _ _).andThen fun _ => only_read fun d => (Only.fails _ _).andThen fun _ => .ret _

/-- The clocks agree, and have agreed at each step. -/
structure Prompt (d : Db) (l : List (Entry ι Db Tx)) : Prop where
  keyed : Keyed d
  clocks : d.clock ≤ d.bucketClock / 1000 + skew
  timely : ∀ e ∈ l, Timely e

theorem Prompt.saving (i : ι) (tx : Tx) (d d' : Db) (l : List (Entry ι Db Tx)) (h : Saving tx) (hd : Prompt d l)
    (hr : system.run tx d = some d') : Prompt d' (l ++ [⟨i, tx, d⟩]) := by
  obtain ⟨hclock, hbucket⟩ := clock_run hd.keyed hr
  refine ⟨Keyed.run hd.keyed hr, by rw [hclock, hbucket]; exact hd.clocks, fun e he => ?_⟩
  rcases mem_snoc.mp he with he | rfl
  · exact hd.timely e he
  · cases tx with
    | register | commit => trivial
    | upload => exact hd.clocks
    | _ => exact h.elim

/-- From every state of a run, a request that is admitted and that the store can take is done. -/
theorem put_completes [DecidableEq ι] {calls : ι → Call} {c : Config ι (Shared ι Db Tx) (Transactions.Request Failure Db Tx)
      Transactions.Request.Reply (Except Failure Reply)} (hr : Runs system (fun i p => p = ((calls i).program).run) d c) {i : ι}
    (hi : c.callers i = none) {request : Request} {collection record key : String} (hcall : calls i = .put request collection record key)
    {a : Admitted} {root : Root} (h : Admits c.state.db request collection record false a root)
    (ht : Takes c.state.db collection record false a root key) (hp : Prompt c.state.db c.state.log) :
    ∃ c', Steps (world system) (fun i p => p = ((calls i).program).run) c c' ∧
      Done c.state.db c'.state.db (a.commit collection record false root key) a.want.content ∧
      c'.callers = Function.update c.callers i (some (.ret (.ok (.written (nextRevision a.expected, false))))) ∧
      Prompt c'.state.db c'.state.log := by
  obtain ⟨f, hwrite, hdone⟩ := write_alone h ht
  have hprogram : (calls i).program = (put request collection record key >>= fun o => (pure (.written o) : Route Reply)) := by rw [hcall]; rfl
  have halone : alone system Failure.server (calls i).program.run c.state.db = (.ok (.written (nextRevision a.expected, false)), f) := by
    have hput : alone system Failure.server (put request collection record key).run c.state.db = (.ok (nextRevision a.expected, false), f) := hwrite
    rw [hprogram, alone_run_bind _ hput]
    rfl
  have honly : Prog.Only (Request.commits Saving) ((calls i).program).run := by
    rw [hprogram]
    exact (commits_write _ _ _ _ _).andThen fun _ => .ret _
  obtain ⟨c', hs, -, hdb, hcallers, hkept⟩ := Runs.alone_kept Failure.server (Prompt.saving i) hr hi rfl honly hp
  rw [halone] at hdb hcallers
  exact ⟨c', hs, hdb ▸ hdone, hcallers, hkept⟩

end

end Mikaki.Vault.Records
