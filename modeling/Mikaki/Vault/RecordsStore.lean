import Mikaki.Lib.JsonSound
import Mikaki.Vault.RecordsAlone

/-!
# A store of records

The record store over every run: a compare-and-swap of revisions, one batch for
an operation, answers that retries get again, and an object for every live head.
-/

namespace Mikaki.Vault.Records

open Concurrent Concurrent.Prog Rows Transactions
open Browser (Bytes)

/-! ## What is hashed of a request -/

/-- What comes before the first separator, and what comes behind it. -/
theorem separated_inj {α : Type} {z : α} {a b c d : List α} (ha : z ∉ a) (hb : z ∉ b) (h : a ++ z :: c = b ++ z :: d) : a = b ∧ c = d := by
  induction a generalizing b with
  | nil =>
    cases b with
    | nil => exact ⟨rfl, (List.cons.inj h).2⟩
    | cons y b => exact absurd (List.mem_cons.mpr (.inl (List.cons.inj h).1)) hb
  | cons x a ih =>
    cases b with
    | nil => exact absurd (List.mem_cons.mpr (.inl (List.cons.inj h).1.symm)) ha
    | cons y b =>
      obtain ⟨hxy, hrest⟩ := List.cons.inj h
      obtain ⟨hab, hcd⟩ := ih (fun hm => ha (List.mem_cons_of_mem _ hm)) (fun hm => hb (List.mem_cons_of_mem _ hm)) hrest
      exact ⟨by rw [hxy, hab], hcd⟩

/-- A letter of an identifier. -/
theorem identifier_byte {s : String} (h : identifier s = true) {b : UInt8} (hb : b ∈ Text.bytes s) : b ≠ 0 ∧ b ≠ 47 := by
  simp only [identifier, Service.isIdentifier, Bool.and_eq_true, List.all_eq_true] at h
  have hletter := h.2 b hb
  constructor
  · rintro rfl
    exact absurd hletter (by decide)
  · rintro rfl
    exact absurd hletter (by decide)

theorem scope_inj {a b c d : String} (ha : identifier a = true) (hc : identifier c = true)
    (h : Text.bytes (a ++ "/" ++ b) = Text.bytes (c ++ "/" ++ d)) : a = c ∧ b = d := by
  have hslash : Text.bytes "/" = [47] := by decide
  simp only [Text.bytes_append, hslash, List.append_assoc, List.singleton_append] at h
  obtain ⟨hac, hbd⟩ := separated_inj (fun hm => (identifier_byte ha hm).2 rfl) (fun hm => (identifier_byte hc hm).2 rfl) h
  exact ⟨Text.bytes_inj hac, Text.bytes_inj hbd⟩

theorem word_inj {m n : Int} (hm : m = -1 ∨ 0 < m ∧ m < 9007199254740991) (hn : n = -1 ∨ 0 < n ∧ n < 9007199254740991)
    (h : word m = word n) : m = n := by
  unfold word at h
  omega

theorem scope_nonzero {c r : String} (hc : identifier c = true) (hr : identifier r = true) : (0 : UInt8) ∉ Text.bytes (c ++ "/" ++ r) := by
  have hslash : Text.bytes "/" = [47] := by decide
  rw [Text.bytes_append, Text.bytes_append, hslash]
  intro hm
  rcases List.mem_append.mp hm with hm | hm
  · rcases List.mem_append.mp hm with hm | hm
    · exact (identifier_byte hc hm).1 rfl
    · exact absurd hm (by decide)
  · exact (identifier_byte hr hm).1 rfl

theorem method_nonzero (deleted : Bool) : (0 : UInt8) ∉ Text.bytes (method deleted) := by
  cases deleted <;> decide

/-- What is hashed of a request. -/
def Admitted.preimage (self : Admitted) (collection record : String) (deleted : Bool) : Bytes :=
  requestPreimage (method deleted) (collection ++ "/" ++ record) (word self.expected) self.body

/-- The batch does what the request asks for. -/
structure Commit.Does (self : Commit) (a : Admitted) (collection record : String) (deleted : Bool) : Prop where
  named : self.collectionId = collection ∧ self.recordId = record ∧ self.kind = a.want.value.kind
  revision : self.expected = a.expected ∧ self.revision = nextRevision a.expected
  deleted : self.deleted = deleted
  content : self.ciphertextSha256 = a.want.content.map (fun x => digest x.1) ∧ self.keyEnvelope = a.want.content.map fun x => x.2

/-- Two requests have one preimage only where they ask for the same. -/
theorem preimage_inj {request request' : Request} {collection record collection' record' : String} {deleted deleted' : Bool} {a b : Admitted}
    (ha : a.By request collection record deleted) (hb : b.By request' collection' record' deleted')
    (h : a.preimage collection record deleted = b.preimage collection' record' deleted') :
    (collection = collection' ∧ record = record') ∧ deleted = deleted' ∧ a.expected = b.expected ∧ a.body = b.body := by
  simp only [Admitted.preimage, requestPreimage, List.append_assoc, List.singleton_append] at h
  obtain ⟨hmethod, h⟩ := separated_inj (method_nonzero deleted) (method_nonzero deleted') h
  obtain ⟨hscope, h⟩ := separated_inj (scope_nonzero ha.named.1 ha.named.2) (scope_nonzero hb.named.1 hb.named.2) h
  have hlen : (Framing.be64 (word a.expected)).length = (Framing.be64 (word b.expected)).length := by
    rw [Framing.length_be64, Framing.length_be64]
  obtain ⟨hword, hbody⟩ := List.append_inj h hlen
  have hbound : ∀ n, word n < 2 ^ 64 := by
    intro n
    unfold word
    omega
  have hexpected := word_inj (expectedRevision_range ha.expected) (expectedRevision_range hb.expected)
    (Framing.be64_inj (hbound _) (hbound _) hword)
  have hdeleted : deleted = deleted' := by
    have := Text.bytes_inj hmethod
    cases deleted <;> cases deleted' <;> first | rfl | exact absurd this (by decide)
  exact ⟨scope_inj ha.named.1 hb.named.1 hscope, hdeleted, hexpected, Text.bytes_inj hbody⟩

/-- The revisions count from one on. -/
def Numbered (bs : List Commit) : Prop := ∀ k (hk : k < bs.length), bs[k].revision = k + 1

theorem numbered_prefix {bs cs : List Commit} (h : Numbered cs) (hp : bs <+: cs) : Numbered bs := by
  intro k hk
  rw [hp.getElem hk]
  exact h k _

theorem last_of_numbered {bs : List Commit} (h : Numbered bs) {b last : Commit} (hb : b ∈ bs) (hlast : bs.getLast? = some last) :
    b.revision ≤ last.revision ∧ (b.revision = last.revision → b = last) := by
  obtain ⟨k, hk, rfl⟩ := List.getElem_of_mem hb
  rw [List.getLast?_eq_getElem?, List.getElem?_eq_some_iff] at hlast
  obtain ⟨hlt, rfl⟩ := hlast
  rw [h k hk, h _ hlt]
  refine ⟨by omega, fun he => ?_⟩
  have hkl : k = bs.length - 1 := by omega
  subst hkl
  rfl

section
variable {ι : Type} {l l' : List (Entry ι Db Tx)} {d : Db}

theorem mem_history {slot : Slot} {b : Commit} : b ∈ history slot l ↔ (∃ e ∈ l, effect e = some b) ∧ b.slot = slot := by
  simp [history, committed]

theorem history_mono (h : l <+: l') (slot : Slot) : history slot l <+: history slot l' := (h.filterMap effect).filter _

theorem Recorded.numbered (h : Recorded d l) (slot : Slot) : Numbered (history slot l) := by
  intro k hk
  have hmap := List.getElem_of_eq (h.counted slot) (show k < ((history slot l).map (·.revision)).length by simpa using hk)
  simpa using hmap

end

/-! ## Every run -/

/-- A store without records. -/
structure Db.Empty (d : Db) : Prop where
  heads : d.heads = []
  mutations : d.mutations = []
  candidates : d.candidates = []
  bucket : d.bucket = []

theorem Db.Empty.store {ι : Type} {calls : ι → Call} {d : Db} (hd : d.Empty) : Store calls d [] where
  recorded :=
    { keyed := ⟨hd.heads ▸ .nil, by simp [hd.heads], hd.mutations ▸ .nil, hd.bucket ▸ .nil⟩
      head := by simp [hd.heads, lookup, history, committed]
      counted := by simp [history, committed] }
  clocks := by simp
  made := by simp
  receipts := by simp [hd.mutations]
  objects := ⟨by simp, by simp, by simp [hd.bucket], fun key bytes h => by simp [Uploaded] at h, by simp [hd.heads]⟩
  retained := fun _ => ⟨by simp, .nil⟩
  spared := fun _ => ⟨by simp [hd.candidates], fun key h => by simp [Doomed] at h, fun key h => by simp [Doomed] at h⟩

namespace Sample

def ciphertext : Bytes := 2 :: List.replicate 28 7

def envelope : Bytes := 2 :: List.replicate 60 9

def body : Json.Value := .obj [("format_version", .num 2), ("vault_id", .str "vault"), ("key_generation", .num 1), ("owner_key_revision", .num 1),
  ("kind", .str "note"), ("revision", .num 1), ("ciphertext", .str (Base64url.encode ciphertext)), ("key_envelope", .str (Base64url.encode envelope))]

def operation : String := "BQUFBQUFBQUFBQUFBQUFBQUFBQUFBQUFBQUFBQUFBQU"

/-- What a browser sends to save a new record. -/
def request : Request :=
  { bucket := true, origin := some "https://v.example", url := "https://v.example", ifNoneMatch := some "*", ifMatch := none
    operation := some operation, cookie := some "secret", contentType := some "application/json"
    body := some body.render, clock := fun _ => some 100 }

/-- One saves, the other reads. -/
def calls : Bool → Call
  | false => .put request "notes" "one" "object"
  | true => .get request "notes" "one"

def owner : Owner := ⟨"account", Base64url.encode (Sha.sha256 (Text.bytes "secret")), "passkey"⟩

def db : Db :=
  { around :=
      { contexts := [⟨"sso", owner.secretHash⟩], sessions := [⟨"sso", "account", "passkey", 3, 900, false⟩], boundSessions := []
        accounts := [⟨"account", 3, true⟩], credentials := [⟨"passkey", "account", true⟩], unixepoch := 100 }
    roots := [⟨"account", "vault", "https://v.example", 1, 1, 2, suite, "", ""⟩]
    wraps := [⟨"account", 1, "passkey", "wrapped"⟩]
    heads := [], mutations := [], candidates := [], bucket := [], bucketClock := 100000 }

def admitted : Admitted := ⟨owner, -1, operation, body.render, ⟨⟨2, "vault", 1, 1, "note", 1⟩, some (ciphertext, Base64url.encode envelope)⟩⟩

def root : Root := ⟨"vault", "https://v.example", 1, 1, 2, suite, 100⟩

theorem empty : db.Empty := ⟨rfl, rfl, rfl, rfl⟩

theorem framed : frame (Base64url.encode ciphertext) 29 (ciphertextLimit "notes" "note") = some ciphertext ∧
    frame (Base64url.encode envelope) 61 61 = some envelope :=
  ⟨frame_eq_some.mpr ⟨⟨rfl, by decide, by decide⟩, rfl⟩, frame_eq_some.mpr ⟨⟨rfl, by decide, by decide⟩, rfl⟩⟩

theorem wants : wanted "notes" false (-1) body.render = .ok admitted.want := by
  have hread : PutBody.read body = some ⟨admitted.want.value, Base64url.encode ciphertext, Base64url.encode envelope⟩ := rfl
  have hbrought : brought "notes" false body.render = .ok admitted.want := by
    unfold brought
    rw [if_neg (by decide), Json.parse_render, Option.bind_some, hread]
    simp only [answer, Checks.ok_bind, framed]
    rfl
  unfold wanted
  rw [hbrought, Checks.ok_bind, Checks.check_bind_eq_ok, Checks.denyIf_eq_ok]
  exact ⟨by decide, rfl⟩

theorem authorised : db.around.authorised "account" "passkey" owner.secretHash 100 ∧
    db.around.owner owner.secretHash 100 = some owner := by
  have hlive : db.around.live owner.secretHash 100 ⟨"sso", "account", "passkey", 3, 900, false⟩ :=
    ⟨⟨_, List.mem_singleton_self _, rfl, rfl⟩, rfl, by decide, ⟨_, List.mem_singleton_self _, rfl, rfl, rfl⟩,
      _, List.mem_singleton_self _, rfl, rfl, rfl⟩
  refine ⟨⟨_, List.mem_singleton_self _, rfl, rfl, hlive⟩, ?_⟩
  have hbound : ¬∃ ds ∈ db.around.boundSessions, ds.ssoId = "sso" ∧ ds.cookieExpiresAt ≤ 100 := by decide
  unfold Accounts.owner
  rw [show db.around.sessions = [⟨"sso", "account", "passkey", 3, 900, false⟩] from rfl, List.find?_cons_of_pos (by exact decide_eq_true ⟨hlive, hbound⟩)]
  rfl

theorem rooted : authority db owner = some root := by
  unfold authority
  exact (if_pos authorised.1).trans rfl

theorem admits : Admits db request "notes" "one" false admitted root where
  bucket := rfl
  named := ⟨by decide, rfl, by decide, rfl, wants⟩
  sameOrigin := by decide
  precondition := by decide
  operation := ⟨List.replicate 32 5, decode_eq_some.mpr ⟨by decide +kernel, by decide, by decide⟩⟩
  owner := ⟨"secret", 100, rfl, rfl, authorised.2⟩
  json := rfl
  size := by decide +kernel
  rooted := rooted
  supported := by decide +kernel
  vault := rfl

theorem takes : Takes db "notes" "one" false admitted root "object" where
  keyed := (@Db.Empty.store Bool calls db empty).recorded.keyed
  current := ⟨rfl, rfl⟩
  operation := by simp [db]
  head := .inl ⟨rfl, by simp [db]⟩
  recent := by decide
  slots := .inr (by decide)
  key := ⟨by simp [db], by simp [db], by simp [db]⟩

theorem distinct : Distinct calls := by
  intro i j key hi hj
  cases i <;> cases j
  · rfl
  · cases hj
  · cases hi
  · cases hi

def commit : Commit := admitted.commit "notes" "one" false root "object"

theorem shown {f : Db} (h : Done db f commit admitted.want.content) :
    alone system Failure.server (calls true).program.run f = (.ok (.read (.live root commit.row ciphertext)), f) := by
  obtain ⟨key, o, hkey, hobject, hbytes⟩ := h.object _ rfl
  have haround : f.around = db.around := h.same.1
  have hreads : Reads f request "notes" "one" owner root := by
    refine ⟨rfl, by decide, ⟨"secret", 100, rfl, rfl, ?_⟩, (authority_congr h.same owner).trans rooted, by decide +kernel⟩
    rw [haround]
    exact authorised.2
  have hhead := (h.head commit.slot).trans (if_pos rfl)
  have hget := get_alone hreads h.keyed hhead rfl rfl ⟨⟨by decide, by decide⟩, rfl, envelope, framed.2⟩ rfl rfl hkey hobject hbytes
  show alone system Failure.server (get request "notes" "one" >>= fun s => (pure (.read s) : Route Reply)).run f = _
  rw [alone_run_bind _ hget]
  rfl

/-- A run in which one saves. -/
theorem run : ∃ c, Runs system (fun i p => p = ((calls i).program).run) db c ∧ Done db c.state.db commit admitted.want.content ∧
    c.callers false = some (.ret (.ok (.written (1, false)))) ∧ c.callers true = none ∧ ∀ e ∈ c.state.log, Timely e := by
  have hprompt : Prompt db ([] : List (Entry Bool Db Tx)) := ⟨takes.keyed, by decide, by simp⟩
  have hstart : Runs system (fun i p => p = ((calls i).program).run) db (.initial (.initial db)) := .refl
  obtain ⟨c, hc, hdone, hcallers, hkept⟩ := put_completes hstart (i := false) rfl rfl admits takes hprompt
  refine ⟨c, hc, hdone, ?_, ?_, hkept.timely⟩
  · rw [hcallers, Function.update_self]
    rfl
  · rw [hcallers, Function.update_of_ne (by decide)]
    rfl

end Sample

section
variable {ι : Type} [DecidableEq ι] {calls : ι → Call} {d : Db}
  {c : Config ι (Shared ι Db Tx) (Transactions.Request Failure Db Tx) Transactions.Request.Reply (Except Failure Reply)}

theorem runs_good (hd : d.Empty) (hdistinct : Distinct calls) (hr : Runs system (fun i p => p = ((calls i).program).run) d c) :
    Good (world system) (contract system (discipline calls)) (fun i => Returned (calls i)) c := by
  refine Runs.good store_keeps ?_ hd.store hr
  rintro i _ rfl
  exact program_valid hdistinct i

/-- Every batch moves one head by one revision, for the request of its caller, and each head is what the last one has written. -/
theorem record_history (hd : d.Empty) (hdistinct : Distinct calls) (hr : Runs system (fun i p => p = ((calls i).program).run) d c) :
    (∀ slot, (history slot c.state.log).map (·.revision) = (List.range (history slot c.state.log).length).map (fun n : Nat => (n : Int) + 1) ∧
      lookup HeadRow.slot slot c.state.db.heads = (history slot c.state.log).getLast?.map Commit.row) ∧
    (∀ h ∈ c.state.db.heads, h.Check) ∧
    (∀ e ∈ c.state.log, ∀ b, effect e = some b → Made (calls e.caller) b ∧ b.rooted e.before ∧
      e.before.around.authorised b.accountId b.credentialId b.secretHash e.before.clock) ∧
    ∀ c', Step (world system) (fun i p => p = ((calls i).program).run) c c' →
      (c'.state.db.heads = c.state.db.heads ∧ committed c'.state.log = committed c.state.log) ∨
      ∃ b, committed c'.state.log = committed c.state.log ++ [b] ∧ b.Moves c.state.db c'.state.db := by
  have hstore : Store calls c.state.db c.state.log := (runs_good hd hdistinct hr).1.1
  refine ⟨fun slot => ⟨hstore.recorded.counted slot, hstore.recorded.head slot⟩, hstore.recorded.keyed.checked, fun e he b hb => ?_,
    fun c' hc => ?_⟩
  · obtain ⟨htx, ha⟩ := effect_eq_some.mp hb
    obtain ⟨-, -, -, -, -, -, hauth, hroot, -⟩ := ha
    exact ⟨hstore.made e he b htx, hroot, hauth⟩
  · rcases step_db hc with ⟨hdb, hlog⟩ | ⟨e, hlog, hbefore, hrun⟩ | ⟨hdrift, hlog⟩
    · exact .inl ⟨by rw [hdb], by rw [hlog]⟩
    · cases he : effect e with
      | some b =>
        obtain ⟨htx, ha⟩ := effect_eq_some.mp he
        rw [hbefore] at ha
        rw [htx] at hrun
        exact .inr ⟨b, by simp [hlog, committed, he], b.run_allowed hstore.recorded.keyed hrun ha⟩
      | none =>
        refine .inl ⟨?_, by simp [hlog, committed, he]⟩
        obtain ⟨i, tx, before⟩ := e
        obtain rfl : before = c.state.db := hbefore
        exact heads_quiet hstore.recorded.keyed hrun he
    · exact .inl ⟨hdrift.1, by rw [hlog]⟩

theorem record_history_sample : ∃ c b, Runs system (fun i p => p = ((Sample.calls i).program).run) Sample.db c ∧
    (history Sample.commit.slot c.state.log).getLast? = some b ∧ b.row = Sample.commit.row := by
  obtain ⟨c, hc, hdone, -⟩ := Sample.run
  obtain ⟨hslots, -⟩ := record_history Sample.empty Sample.distinct hc
  have hlast := (hslots Sample.commit.slot).2.symm.trans ((hdone.head Sample.commit.slot).trans (if_pos rfl))
  obtain ⟨b, hb, hrow⟩ := Option.map_eq_some_iff.mp hlast
  exact ⟨c, b, hc, hb, hrow⟩

/-- Every live head has its object in the bucket, with the bytes of its digest. -/
theorem live_objects (hd : d.Empty) (hdistinct : Distinct calls) (hr : Runs system (fun i p => p = ((calls i).program).run) d c)
    (ht : ∀ e ∈ c.state.log, Timely e) : ∀ h ∈ c.state.db.heads, h.deleted = false →
      ∃ key o, h.objectKey = some key ∧ lookup Object.key key c.state.db.bucket = some o ∧ h.ciphertextSha256 = some (digest o.bytes) := by
  intro h hh hlive
  have hstore : Store calls c.state.db c.state.log := (runs_good hd hdistinct hr).1.1
  obtain ⟨-, -, -, -, -, -, ⟨hdeleted, -⟩ | ⟨-, hsome, -⟩⟩ := hstore.recorded.keyed.checked h hh
  · rw [hlive] at hdeleted
    cases hdeleted
  obtain ⟨key, hkey⟩ := Option.isSome_iff_exists.mp hsome
  obtain ⟨bytes, hup, hdigest⟩ := hstore.objects.held h hh key hkey
  rcases hstore.objects.stays key bytes hup with hdoom | ⟨o, ho, hk, rfl⟩
  · exact absurd hkey ((hstore.spared ht).free key hdoom h hh)
  · exact ⟨key, o, hkey, hstore.recorded.keyed.bucket.lookup.mpr ⟨ho, hk⟩, hdigest⟩

theorem live_objects_sample : ∃ c, Runs system (fun i p => p = ((Sample.calls i).program).run) Sample.db c ∧
    ∃ h ∈ c.state.db.heads, ∃ key o, h.objectKey = some key ∧ lookup Object.key key c.state.db.bucket = some o ∧
      h.ciphertextSha256 = some (digest o.bytes) := by
  obtain ⟨c, hc, hdone, -, -, htimely⟩ := Sample.run
  obtain ⟨hmem, -⟩ := lookup_mem ((hdone.head Sample.commit.slot).trans (if_pos rfl))
  exact ⟨c, hc, _, hmem, live_objects Sample.empty Sample.distinct hc htimely _ hmem rfl⟩

/-- A reader that starts behind a batch of the record sees that batch or a later one, with the bytes of its digest. -/
theorem reads_follow (hd : d.Empty) (hdistinct : Distinct calls) (hr : Runs system (fun i p => p = ((calls i).program).run) d c)
    {c' : Config ι (Shared ι Db Tx) (Transactions.Request Failure Db Tx) Transactions.Request.Reply (Except Failure Reply)}
    (hs : Steps (world system) (fun i p => p = ((calls i).program).run) c c') {i : ι} {request : Request} {collection record : String}
    (hcall : calls i = .get request collection record) (hi : c.callers i = none) {r : Selected}
    (hreturn : c'.callers i = some (.ret (.ok (.read r)))) :
    Shown c.state.log collection record r c'.state.log ∧
    ∀ e ∈ c.state.log, ∀ b, effect e = some b → b.slot = r.head.slot →
      b.revision ≤ r.head.revision ∧ (b.revision = r.head.revision → r.head = b.row) := by
  have hshown : Shown c.state.log collection record r c'.state.log := by
    have hinv : ∀ d l, ((discipline calls).behind c.state.log).inv d l → Recorded d l ∧ c.state.log <+: l := fun d l h => ⟨h.1.recorded, h.2⟩
    refine Runs.started (K := discipline calls) store_keeps (Q := fun i => Returned (calls i)) ?_ hd.store hr hi
      (R := fun x s => ∀ r, x = .ok (.read r) → Shown c.state.log collection record r s.log) ?_ hs hreturn r rfl
    · rintro j _ rfl
      exact program_valid hdistinct j
    · rintro _ rfl
      rw [hcall]
      have hget : Ensures (world system) (contract system ((discipline calls).behind c.state.log)) i
          ((contract system ((discipline calls).behind c.state.log)).fresh i) (Call.get request collection record).program
          fun x s => ∀ r, x = .read r → Shown c.state.log collection record r s.log := by
        refine ((gives_get hinv request collection record).weaken fun _ _ _ => trivial).bind fun r => .pure fun s _ h r' hr' => ?_
        cases hr'
        exact h
      exact Valid.post hget fun x s _ h r hx => h _ hx r rfl
  refine ⟨hshown, fun e he b hb hslot => ?_⟩
  have hstore : Store calls c'.state.db c'.state.log := (runs_good hd hdistinct (Relation.ReflTransGen.trans hr hs)).1.1
  obtain ⟨l₁, hbehind, hbefore, hlast⟩ := hshown.written
  obtain ⟨last, hlast, hrow⟩ := Option.map_eq_some_iff.mp hlast
  have hmem : b ∈ history r.head.slot l₁ := mem_history.mpr ⟨⟨e, hbehind.subset he, hb⟩, hslot⟩
  have hnumbered := numbered_prefix (hstore.recorded.numbered r.head.slot) (history_mono hbefore r.head.slot)
  obtain ⟨hle, heq⟩ := last_of_numbered hnumbered hmem hlast
  have hrevision : r.head.revision = last.revision := by rw [← hrow]; rfl
  refine ⟨hrevision ▸ hle, fun h => ?_⟩
  rw [← hrow, heq (h.trans hrevision)]

theorem reads_follow_sample : ∃ c c' r, Runs system (fun i p => p = ((Sample.calls i).program).run) Sample.db c ∧
    Steps (world system) (fun i p => p = ((Sample.calls i).program).run) c c' ∧ c'.callers true = some (.ret (.ok (.read r))) ∧
    ∃ e ∈ c.state.log, ∃ b, effect e = some b ∧ r.head = b.row := by
  obtain ⟨c, hc, hdone, -, hidle, -⟩ := Sample.run
  have honly : Prog.Only (Request.commits Saving) ((Sample.calls true).program).run := commits_reads ((reads_get _ _ _).andThen fun _ => .ret _)
  obtain ⟨c', hs, -, -, hcallers, -⟩ := Runs.alone_kept Failure.server (φ := Saving) (R := fun _ _ => True)
    (fun _ _ _ _ _ _ _ => trivial) hc hidle rfl honly trivial
  have hreturn : c'.callers true = some (.ret (.ok (.read (.live Sample.root Sample.commit.row Sample.ciphertext)))) := by
    rw [hcallers, Function.update_self, Sample.shown hdone]
  have hstore : Store Sample.calls c.state.db c.state.log := (runs_good Sample.empty Sample.distinct hc).1.1
  have hlast := (hstore.recorded.head Sample.commit.slot).symm.trans ((hdone.head Sample.commit.slot).trans (if_pos rfl))
  obtain ⟨b, hb, hrow⟩ := Option.map_eq_some_iff.mp hlast
  obtain ⟨⟨e, he, heffect⟩, hslot⟩ := mem_history.mp (List.mem_of_getLast? hb)
  obtain ⟨-, hfollow⟩ := reads_follow Sample.empty Sample.distinct hc hs rfl hidle hreturn
  have hrevision : b.revision = (Selected.live Sample.root Sample.commit.row Sample.ciphertext).head.revision := congrArg HeadRow.revision hrow
  exact ⟨c, c', _, hc, hs, hreturn, e, he, b, heffect, (hfollow e he b heffect hslot).2 hrevision⟩

end

end Mikaki.Vault.Records
