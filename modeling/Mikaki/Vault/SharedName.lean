import Mikaki.Vault.RecordEnvelope

/-!
# A shared name is opened as it was sealed

The browser and the service write the contexts of a record in code of their
own. Both come to the same bytes, so that a frame is opened under the fields it
was sealed with, and under no others.
-/

namespace Mikaki.Vault.SharedName

open Checks
open Browser (Bytes Primitives parseUrl encapsulate encrypt decrypt orThrow letters maxSafe decodeBase64Url VaultRecordSource
  VaultRecordAuthority)
open Service (RecordSource RecordAuthority RecordBinding)

/-! ## Contexts -/

theorem context_eq_some {parts : List Bytes} {c : Bytes} : Service.context parts = some c ↔
    (∀ part ∈ parts, part.length < 2 ^ 16) ∧ c = parts.flatMap Framing.prefixed16 := by
  induction parts generalizing c with
  | nil => simp [Service.context, eq_comm]
  | cons part parts ih =>
    simp only [Service.context, Option.bind_eq_bind, Option.bind_eq_some_iff, Option.guard_eq_some', exists_unit, ih, Option.pure_def,
      Option.some.injEq, List.forall_mem_cons, List.flatMap_cons, Framing.prefixed16]
    constructor
    · rintro ⟨hlen, _, ⟨hall, rfl⟩, rfl⟩
      exact ⟨⟨hlen, hall⟩, rfl⟩
    · rintro ⟨⟨hlen, hall⟩, rfl⟩
      exact ⟨hlen, _, ⟨hall, rfl⟩, rfl⟩

theorem prefixAll_eq_ok {message : String} {parts : List Bytes} {c : Bytes} : Browser.prefixAll message parts = .ok c ↔
    (∀ part ∈ parts, part.length < 2 ^ 16) ∧ c = parts.flatMap Framing.prefixed16 := by
  have hshort : (¬∃ part ∈ parts, part.length > 65535) ↔ ∀ part ∈ parts, part.length < 2 ^ 16 := by
    simp only [not_exists, not_and, Nat.not_lt]
    exact forall₂_congr fun _ _ => Nat.lt_succ_iff.symm
  rw [Browser.prefixAll, check_bind_eq_ok, denyIf_eq_ok, pure_eq_ok, hshort, eq_comm (a := c)]

/-- Both sides write the same context. -/
theorem prefixAll_iff {message : String} {parts : List Bytes} {c : Bytes} :
    Browser.prefixAll message parts = .ok c ↔ Service.context parts = some c := prefixAll_eq_ok.trans context_eq_some.symm

/-- A context determines as many fields as it has. -/
theorem context_inj {ps qs : List Bytes} {c : Bytes} (hp : Service.context ps = some c) (hq : Service.context qs = some c)
    (hlen : ps.length = qs.length) : ps = qs := by
  obtain ⟨hps, rfl⟩ := context_eq_some.mp hp
  obtain ⟨hqs, he⟩ := context_eq_some.mp hq
  exact (Framing.reads_flatMap Framing.reads_prefixed16 hps hqs hlen (u := []) (v := []) (by rw [he])).1

/-! ## The key schedule -/

theorem labeledExtract_empty (label : String) (ikm : Bytes) :
    Browser.labeledExtract [] label ikm = Sha.hmac256 (List.replicate 32 0) (Service.label label ikm) := by
  simp only [Browser.labeledExtract, Browser.extract, List.length_nil, if_true, Service.label, Service.hpkePrefix, Browser.hpkeVersion,
    Browser.suiteId, Browser.suite, List.append_assoc]

theorem labeledExtract_shared (shared : Bytes) (label : String) (ikm : Bytes) :
    Browser.labeledExtract shared label ikm = Sha.hmac256 shared (Service.label label ikm) := by
  cases shared with
  | nil => rw [labeledExtract_empty, Sha.hmac256_zeros]
  | cons b shared =>
    simp only [Browser.labeledExtract, Browser.extract, List.length_cons, Nat.add_one_ne_zero, if_false, Service.label,
      Service.hpkePrefix, Browser.hpkeVersion, Browser.suiteId, Browser.suite, List.append_assoc]

/-- An output of at most one block is the front of the first block. -/
theorem expand_block {prk info : Bytes} {size : Nat} (h0 : 0 < size) (h : size ≤ 32) :
    Browser.expand prk info size = .ok ((Sha.hmac256 prk (info ++ [1])).take size) := by
  have hone : (size + 31) / 32 = 1 := by omega
  simp [Browser.expand, hone, Browser.expandBlocks, denyIf, pure, Except.pure]

theorem schedule_agrees (shared info : Bytes) : Browser.schedule shared info = .ok (Service.schedule shared info) := by
  unfold Browser.schedule Service.schedule Browser.labeledExpand
  simp only [labeledExtract_shared, Sha.hmac256_zeros, expand_block (show 0 < 32 by decide) (Nat.le_refl 32),
    expand_block (show 0 < 12 by decide) (show 12 ≤ 32 by decide), ok_bind]
  simp [Service.expand, Service.label, Service.hpkePrefix, Browser.hpkeVersion, Browser.suiteId, Browser.suite, Framing.be16, pure, Except.pure]

theorem length_schedule (shared info : Bytes) : (Service.schedule shared info).1.length = 32 ∧ (Service.schedule shared info).2.length = 12 :=
  ⟨rfl, rfl⟩

/-! ## Sources -/

theorem orThrow_eq_ok {α : Type} {message : String} {o : Option α} {a : α} : orThrow message o = .ok a ↔ o = some a := by
  cases o <;> simp [orThrow]

theorem decodeBase64Url_eq_ok {s : String} {bs : Bytes} : decodeBase64Url s = .ok bs ↔ Base64url.decode s = some bs := by
  rw [decodeBase64Url, check_bind_eq_ok, denyIf_eq_ok, orThrow_eq_ok, Bool.not_eq_false]
  refine ⟨fun h => h.2, fun h => ⟨?_, h⟩⟩
  rw [← Base64url.encode_decode h, Base64url.encode, String.toList_ofList, List.all_eq_true]
  exact Base64url.urlSafe_chars bs

theorem identifier_eq_ok {v : Json.Value} {s : String} (h : Browser.identifier v = .ok s) : letters 1 128 s = true := by
  unfold Browser.identifier at h
  split at h
  · split at h
    · cases h
      assumption
    · cases h
  · cases h

theorem positive_eq_ok {v : Json.Value} {n : Nat} (h : Browser.positive v = .ok n) : 1 ≤ n ∧ n ≤ maxSafe := by
  unfold Browser.positive at h
  split at h
  · split at h
    · cases h
      assumption
    · cases h
  · cases h

theorem sourceDigest_eq_ok {v : Json.Value} {s : String} (h : Browser.sourceDigest v = .ok s) :
    ∃ d : Bytes, d.length = 32 ∧ Base64url.decode s = some d := by
  unfold Browser.sourceDigest at h
  split at h
  · obtain ⟨d, hd, h⟩ := bind_eq_ok.mp (check_bind_eq_ok.mp h).2
    rw [check_bind_eq_ok, denyIf_eq_ok, pure_eq_ok] at h
    obtain ⟨hlen, rfl⟩ := h
    exact ⟨d, not_not.mp hlen, decodeBase64Url_eq_ok.mp hd⟩
  · cases h

theorem parseVaultRecordAuthority_eq_ok {v : Json.Value} {a : VaultRecordAuthority} (h : Browser.parseVaultRecordAuthority v = .ok a) :
    (1 ≤ a.keyGeneration ∧ a.keyGeneration ≤ maxSafe) ∧ 1 ≤ a.ownerKeyRevision ∧ a.ownerKeyRevision ≤ maxSafe := by
  unfold Browser.parseVaultRecordAuthority at h
  obtain ⟨input, -, h⟩ := bind_eq_ok.mp h
  obtain ⟨generation, hgeneration, h⟩ := bind_eq_ok.mp h
  obtain ⟨revision, hrevision, h⟩ := bind_eq_ok.mp h
  cases h
  exact ⟨positive_eq_ok hgeneration, positive_eq_ok hrevision⟩

/-- A source as the service reads it. -/
def serviceSource (s : VaultRecordSource) : RecordSource :=
  { storageVersion := 2, origin := s.origin, ownerId := s.ownerId, vaultId := s.vaultId, collectionId := s.collectionId,
    recordId := s.recordId, kind := s.kind, revision := UInt64.ofNat s.revision, ciphertextSha256 := s.ciphertextSha256 }

def serviceAuthority (a : VaultRecordAuthority) : RecordAuthority := ⟨UInt64.ofNat a.keyGeneration, UInt64.ofNat a.ownerKeyRevision⟩

theorem toNat_ofNat {n : Nat} (h : n ≤ maxSafe) : (UInt64.ofNat n).toNat = n := by
  have hm : maxSafe < 2 ^ 64 := by decide
  rw [UInt64.toNat_ofNat']
  exact Nat.mod_eq_of_lt (by omega)

theorem inRange_ofNat {n : Nat} (h : 1 ≤ n ∧ n ≤ maxSafe) : Service.inRange (UInt64.ofNat n) = true := by
  have hn := toNat_ofNat h.2
  simp only [Service.inRange, Bool.and_eq_true, decide_eq_true_eq, UInt64.le_iff_toNat_le, hn]
  exact h

theorem urlSafe_byte {c : Char} (h : Base64url.urlSafe c = true) :
    (Text.isAlphanumeric (UInt8.ofNat c.toNat) || UInt8.ofNat c.toNat == 45 || UInt8.ofNat c.toNat == 95) = true := by
  have hall : ∀ n < 128, Base64url.urlSafe (Char.ofNat n) = true →
      (Text.isAlphanumeric (UInt8.ofNat n) || UInt8.ofNat n == 45 || UInt8.ofNat n == 95) = true := by decide
  have hr := Base64url.urlSafe_range h
  refine hall c.toNat (by omega) ?_
  rw [Char.ofNat_toNat]
  exact h

theorem isIdentifier_of_letters {s : String} (h : letters 1 128 s = true) : Service.isIdentifier s = true := by
  simp only [letters, Bool.and_eq_true, decide_eq_true_eq, List.all_eq_true] at h
  obtain ⟨⟨h1, h2⟩, hall⟩ := h
  have hb : Text.bytes s = s.toList.map fun c => UInt8.ofNat c.toNat := by
    conv => lhs; rw [← String.ofList_toList (s := s)]
    exact Text.bytes_ascii fun c hc => Nat.lt_of_le_of_lt (Base64url.urlSafe_range (hall c hc)).2 (by decide)
  simp only [Service.isIdentifier, hb, List.length_map, List.all_map, Bool.and_eq_true, decide_eq_true_eq, Bool.not_eq_true',
    List.isEmpty_eq_false_iff, ne_eq, List.map_eq_nil_iff, List.all_eq_true, Function.comp_apply]
  refine ⟨⟨fun hnil => ?_, h2⟩, fun c hc => urlSafe_byte (hall c hc)⟩
  rw [hnil] at h1
  exact absurd h1 (by decide)

theorem valid_serviceAuthority {a : VaultRecordAuthority}
    (h : (1 ≤ a.keyGeneration ∧ a.keyGeneration ≤ maxSafe) ∧ 1 ≤ a.ownerKeyRevision ∧ a.ownerKeyRevision ≤ maxSafe) :
    (serviceAuthority a).valid = true := by
  simp only [RecordAuthority.valid, serviceAuthority, inRange_ofNat h.1, inRange_ofNat h.2, Bool.and_self]

section
variable [Primitives]

/-- What both sides ask of a source. -/
structure Admitted (s : VaultRecordSource) : Prop where
  origin : parseUrl s.origin = some ("https", s.origin)
  ownerId : letters 1 128 s.ownerId = true
  vaultId : letters 1 128 s.vaultId = true
  collectionId : s.collectionId = "personal"
  kind : s.kind = s.recordId
  revision : 1 ≤ s.revision ∧ s.revision ≤ maxSafe
  digest : ∃ d : Bytes, d.length = 32 ∧ Base64url.decode s.ciphertextSha256 = some d

theorem sourceOrigin_eq_ok {v : Json.Value} {s : String} (h : Browser.sourceOrigin v = .ok s) : parseUrl s = some ("https", s) := by
  unfold Browser.sourceOrigin at h
  split at h
  · obtain ⟨⟨scheme, origin⟩, hu, h⟩ := bind_eq_ok.mp h
    dsimp only at h
    rw [check_bind_eq_ok, denyIf_eq_ok, pure_eq_ok, not_or, not_not, not_not] at h
    obtain ⟨⟨rfl, rfl⟩, rfl⟩ := h
    exact orThrow_eq_ok.mp hu
  · cases h

theorem parseVaultRecordSource_eq_ok {v : Json.Value} {s : VaultRecordSource} (h : Browser.parseVaultRecordSource v = .ok s) : Admitted s := by
  unfold Browser.parseVaultRecordSource at h
  obtain ⟨source, hp, h⟩ := bind_eq_ok.mp h
  cases source with
  | ofAttribute source => cases h
  | ofRecord source =>
    cases h
    unfold Browser.parseVaultSource at hp
    obtain ⟨version, -, hp⟩ := bind_eq_ok.mp hp
    obtain ⟨input, -, hp⟩ := bind_eq_ok.mp hp
    obtain ⟨origin, horigin, hp⟩ := bind_eq_ok.mp hp
    obtain ⟨digest, hdigest, hp⟩ := bind_eq_ok.mp hp
    obtain ⟨ownerId, howner, hp⟩ := bind_eq_ok.mp hp
    obtain ⟨revision, hrevision, hp⟩ := bind_eq_ok.mp hp
    split at hp
    · obtain ⟨_, -, hp⟩ := bind_eq_ok.mp hp
      cases hp
    · obtain ⟨record, -, hp⟩ := bind_eq_ok.mp hp
      obtain ⟨vaultId, hvault, hp⟩ := bind_eq_ok.mp (check_bind_eq_ok.mp hp).2
      cases hp
      exact
        { origin := sourceOrigin_eq_ok horigin
          ownerId := identifier_eq_ok howner
          vaultId := identifier_eq_ok hvault
          collectionId := rfl
          kind := rfl
          revision := positive_eq_ok hrevision
          digest := sourceDigest_eq_ok hdigest }

/-- The service admits what the browser parsed for a name. -/
theorem valid_serviceSource {s : VaultRecordSource} (h : Admitted s) (hname : s.recordId = "name") : (serviceSource s).valid = true := by
  obtain ⟨d, hlen, hd⟩ := h.digest
  have horigin : Service.isOrigin s.origin = true := by simp [Service.isOrigin, h.origin]
  have hdigest : Service.isDigest s.ciphertextSha256 = true := by simp [Service.isDigest, hd, hlen, Base64url.encode_decode hd]
  simp only [RecordSource.valid, serviceSource, horigin, isIdentifier_of_letters h.ownerId, isIdentifier_of_letters h.vaultId,
    h.collectionId, h.kind, hname, inRange_ofNat h.revision, hdigest, beq_self_eq_true, Bool.and_self]

end

/-! ## Frames -/

theorem slice_append {a b c : Bytes} {m n : Nat} (ha : a.length = m) (hb : (a ++ b).length = n) : Service.slice (a ++ b ++ c) m n = b := by
  rw [Service.slice, ← hb, List.take_left, ← ha, List.drop_left]

/-- The parts of what begins with its version and a nonce. -/
theorem versioned_parts (nonce : Vector UInt8 12) (sealed : Bytes) :
    (2 :: nonce.toList ++ sealed).head? = some 2 ∧ Service.slice (2 :: nonce.toList ++ sealed) 1 13 = nonce.toList ∧
      (2 :: nonce.toList ++ sealed).drop 13 = sealed ∧ (2 :: nonce.toList ++ sealed).length = 13 + sealed.length := by
  have hfront : ([2] ++ nonce.toList).length = 13 := by
    rw [List.length_append, Vector.length_toList]
    rfl
  refine ⟨rfl, slice_append rfl hfront, List.drop_left' hfront, ?_⟩
  rw [List.length_append]
  exact congrArg (· + sealed.length) hfront

/-- The parts of a frame. -/
theorem frame_parts {keyId generation enc sealed : Bytes} (hk : keyId.length = 32) (hg : generation.length = 8) (he : enc.length = 1088) :
    let frame := Browser.magic ++ Browser.version ++ Browser.suite ++ keyId ++ generation ++ enc ++ sealed
    frame.take 4 = Text.bytes "MKVR" ∧ Service.slice frame 4 5 = [Service.version] ∧ Service.slice frame 5 11 = Service.suite ∧
      Service.slice frame 11 43 = keyId ∧ Service.slice frame 43 51 = generation ∧ Service.slice frame 51 Service.encEnd = enc ∧
      frame.drop Service.encEnd = sealed := by
  have hmagic : Browser.magic.length = 4 := by decide
  intro frame
  refine ⟨?_, ?_, ?_, ?_, ?_, ?_, ?_⟩
  · have hf : frame = Browser.magic ++ (Browser.version ++ Browser.suite ++ keyId ++ generation ++ enc ++ sealed) := by
      simp only [frame, List.append_assoc]
    rw [hf, ← hmagic, List.take_left]
    rfl
  · have hf : frame = Browser.magic ++ Browser.version ++ (Browser.suite ++ keyId ++ generation ++ enc ++ sealed) := by
      simp only [frame, List.append_assoc]
    rw [hf, slice_append hmagic (by rw [List.length_append, hmagic]; rfl)]
    rfl
  · have hf : frame = Browser.magic ++ Browser.version ++ Browser.suite ++ (keyId ++ generation ++ enc ++ sealed) := by
      simp only [frame, List.append_assoc]
    rw [hf, slice_append (by rw [List.length_append, hmagic]; rfl) (by rw [List.length_append, List.length_append, hmagic]; rfl)]
    rfl
  · have hf : frame = Browser.magic ++ Browser.version ++ Browser.suite ++ keyId ++ (generation ++ enc ++ sealed) := by
      simp only [frame, List.append_assoc]
    have hpre : (Browser.magic ++ Browser.version ++ Browser.suite).length = 11 := by decide
    rw [hf, slice_append hpre (by rw [List.length_append, hpre, hk])]
  · have hf : frame = Browser.magic ++ Browser.version ++ Browser.suite ++ keyId ++ generation ++ (enc ++ sealed) := by
      simp only [frame, List.append_assoc]
    have hpre : (Browser.magic ++ Browser.version ++ Browser.suite ++ keyId).length = 43 := by
      rw [List.length_append, hk]
      decide
    rw [hf, slice_append hpre (by rw [List.length_append, hpre, hg])]
  · have hpre : (Browser.magic ++ Browser.version ++ Browser.suite ++ keyId ++ generation).length = 51 := by
      rw [List.length_append, List.length_append, hk, hg]
      decide
    exact slice_append hpre (by rw [List.length_append, hpre, he]; rfl)
  · have hpre : (Browser.magic ++ Browser.version ++ Browser.suite ++ keyId ++ generation ++ enc).length = Service.encEnd := by
      rw [List.length_append, List.length_append, List.length_append, hk, hg, he]
      decide
    rw [← hpre]
    exact List.drop_left

/-! ## Sealing -/

theorem vaultCiphertextDigest_eq_ok {s digest : String} {body : Bytes} (hb : decodeBase64Url s = .ok body)
    (h : Browser.vaultCiphertextDigest s = .ok digest) :
    29 ≤ body.length ∧ body.length ≤ 24 * 1024 ∧ Base64url.encode (Sha.sha256 body) = digest := by
  unfold Browser.vaultCiphertextDigest at h
  have h := (check_bind_eq_ok.mp h).2
  rw [hb, ok_bind, check_bind_eq_ok, denyIf_eq_ok, not_or, Nat.not_lt, Nat.not_lt, pure_eq_ok] at h
  exact ⟨h.1.1, h.1.2, h.2⟩

theorem counter_eq_some {v : Option Json.Value} {n : Nat} (h : Browser.counter v = some n) : 1 ≤ n ∧ n ≤ maxSafe := by
  unfold Browser.counter at h
  split at h
  · split at h
    · cases h
      assumption
    · cases h
  · cases h

theorem u64_eq_ok {n : Nat} {bs : Bytes} : Browser.u64 n = .ok bs ↔ (1 ≤ n ∧ n ≤ maxSafe) ∧ bs = Framing.be64 n := by
  rw [Browser.u64, check_bind_eq_ok, denyIf_eq_ok, pure_eq_ok, not_or, Nat.not_lt, Nat.not_lt, eq_comm (a := bs)]

theorem validate_eq_ok {entry : Json.Value} {r : Browser.RecordUserInfoRecipient}
    (h : Browser.validateRecordUserInfoRecipient entry = .ok r) {pk : Bytes} (hpk : Base64url.decode r.publicKey = some pk) :
    pk.length = 1184 ∧ r.keyId = Base64url.encode (Sha.sha256 pk) ∧ 1 ≤ r.generation ∧ r.generation ≤ maxSafe := by
  unfold Browser.validateRecordUserInfoRecipient at h
  split at h
  · have h := (check_bind_eq_ok.mp h).2
    obtain ⟨item, hitem, h⟩ := bind_eq_ok.mp h
    obtain ⟨key, hkey, h⟩ := bind_eq_ok.mp h
    rw [check_bind_eq_ok, check_bind_eq_ok, denyIf_eq_ok, denyIf_eq_ok, pure_eq_ok, not_not, not_not] at h
    obtain ⟨hlen, hid, rfl⟩ := h
    have hdecode := orThrow_eq_ok.mp (check_bind_eq_ok.mp hkey).2
    rw [hpk, Option.some.injEq] at hdecode
    subst hdecode
    have hmembers := orThrow_eq_ok.mp hitem
    unfold Browser.recipientMembers at hmembers
    simp only [Option.bind_eq_bind, Option.bind_eq_some_iff] at hmembers
    obtain ⟨-, -, keyId, -, -, -, publicKey, -, generation, hgeneration, revision, -, hr⟩ := hmembers
    cases hr
    exact ⟨hlen, hid.symm, counter_eq_some hgeneration⟩
  · cases h

/-- The cipher text of a record, as both sides check it. -/
structure Body (body : Bytes) (digest : String) : Prop where
  short : 29 ≤ body.length
  long : body.length ≤ 24 * 1024
  version : body.head? = some 2
  digest : Base64url.encode (Sha.sha256 body) = digest

theorem Body.decode {body : Bytes} {digest : String} (h : Body body digest) : Base64url.decode digest = some (Sha.sha256 body) := by
  rw [← h.digest]
  exact Base64url.decode_encode _

theorem recordContext_eq_ok {item r : Browser.OwnerRecordContext} (h : Browser.recordContext item = .ok r) :
    r = item ∧ item.revision ≤ maxSafe := by
  simp only [Browser.recordContext, Browser.positiveNumber, check_bind_eq_ok, denyIf_eq_ok, pure_eq_ok, not_or, Nat.not_lt] at h
  exact ⟨h.2.2.2.2.symm, h.2.2.2.1.2⟩

theorem be64_uint64 {a b : UInt64} (h : Framing.be64 a.toNat = Framing.be64 b.toNat) : a = b :=
  UInt64.toNat_inj.mp (Framing.be64_inj a.toNat_lt b.toNat_lt h)

theorem toKey_toList (raw : Vector UInt8 32) : Service.toKey raw.toList = some raw := by
  obtain ⟨bytes, hb⟩ := raw
  simp [Service.toKey, hb]

section
variable [Primitives]

/-- The packages are relied on for keeping what they are given. -/
structure Correct : Prop where
  agreement : ∀ {seed pk coins enc shared : Bytes}, Primitives.publicKey seed = some pk → encapsulate pk coins = some (enc, shared) →
    Primitives.decapsulate seed enc = some shared
  cipher : ∀ {key nonce : Bytes} (aad : Bytes) {msg : Bytes}, key.length = 32 → nonce.length = 12 → msg.length < 2 ^ 32 →
    (encrypt key nonce aad msg).length = msg.length + 16 ∧ decrypt key nonce aad (encrypt key nonce aad msg) = some msg

/-- What a frame was sealed with. -/
structure Sealed (dataKey : Bytes) (source : VaultRecordSource) (authority : VaultRecordAuthority) (body pk : Bytes) (generation : Nat)
    (coins frame : Bytes) : Prop where
  isName : source.recordId = "name"
  length : dataKey.length = 32
  stored : Body body source.ciphertextSha256
  positive : 1 ≤ generation ∧ generation ≤ maxSafe
  written : ∃ info aad enc shared, Browser.envelopeInfo (Sha.sha256 pk) (Framing.be64 generation) = .ok info ∧
    Browser.envelopeAad source authority = .ok aad ∧ encapsulate pk coins = some (enc, shared) ∧
    frame = Browser.magic ++ Browser.version ++ Browser.suite ++ Sha.sha256 pk ++ Framing.be64 generation ++ enc ++
      encrypt (Service.schedule shared info).1 (Service.schedule shared info).2 aad dataKey ∧ frame.length = 1187

theorem sealed_of_seal {dataKey coins frame : Bytes} {entry : Json.Value} {binding : Browser.RecordUserInfoWrapContext}
    {source : VaultRecordSource} {authority : VaultRecordAuthority} {body pk : Bytes} {recipient : Browser.RecordUserInfoRecipient}
    (hsource : Browser.parseVaultRecordSource binding.source = .ok source)
    (hauthority : Browser.parseVaultRecordAuthority binding.authority = .ok authority)
    (hbody : decodeBase64Url binding.ciphertext = .ok body) (hrecipient : Browser.validateRecordUserInfoRecipient entry = .ok recipient)
    (hpk : Base64url.decode recipient.publicKey = some pk)
    (h : Browser.sealRecordUserInfoDataKey dataKey entry binding coins = .ok frame) :
    Sealed dataKey source authority body pk recipient.generation coins frame := by
  obtain ⟨-, hkeyId, hgeneration⟩ := validate_eq_ok hrecipient hpk
  unfold Browser.sealRecordUserInfoDataKey at h
  rw [hsource, ok_bind, hauthority, ok_bind, check_bind_eq_ok, denyIf_eq_ok, hbody, ok_bind, check_bind_eq_ok, denyIf_eq_ok] at h
  obtain ⟨hname, hhead, h⟩ := h
  obtain ⟨digest, hdigest, h⟩ := bind_eq_ok.mp h
  rw [check_bind_eq_ok, denyIf_eq_ok, hrecipient, ok_bind, decodeBase64Url_eq_ok.mpr hpk, ok_bind, hkeyId,
    decodeBase64Url_eq_ok.mpr (Base64url.decode_encode _), ok_bind, u64_eq_ok.mpr ⟨hgeneration, rfl⟩, ok_bind] at h
  obtain ⟨hsame, h⟩ := h
  obtain ⟨info, hinfo, h⟩ := bind_eq_ok.mp h
  obtain ⟨aad, haad, h⟩ := bind_eq_ok.mp h
  obtain ⟨⟨enc, shared⟩, henc, h⟩ := bind_eq_ok.mp h
  dsimp only at h
  rw [schedule_agrees, ok_bind, check_bind_eq_ok, denyIf_eq_ok, pure_eq_ok] at h
  obtain ⟨hlen, rfl⟩ := h
  simp only [not_or, not_not] at hname hhead hsame hlen
  obtain ⟨h29, h24, hencode⟩ := vaultCiphertextDigest_eq_ok hbody hdigest
  exact
    { isName := hname.2.1
      length := hname.1
      stored := ⟨h29, h24, hhead, hencode.trans hsame⟩
      positive := hgeneration
      written := ⟨info, aad, enc, shared, hinfo, haad, orThrow_eq_ok.mp henc, rfl, hlen⟩ }

end

/-! ## Both sides write the same bytes -/

theorem envelopeInfo_iff {keyId c : Bytes} {n : Nat} (h : n ≤ maxSafe) :
    Browser.envelopeInfo keyId (Framing.be64 n) = .ok c ↔ Service.envelopeInfo keyId (UInt64.ofNat n) = some c := by
  rw [Service.envelopeInfo, toNat_ofNat h]
  exact prefixAll_iff

/-- What a source and an authority have of the same fields on both sides. -/
theorem envelopeAad_iff {source : VaultRecordSource} {authority : VaultRecordAuthority} {d c : Bytes}
    (hrevision : 1 ≤ source.revision ∧ source.revision ≤ maxSafe) (hd : Base64url.decode source.ciphertextSha256 = some d)
    (hauthority : (1 ≤ authority.keyGeneration ∧ authority.keyGeneration ≤ maxSafe) ∧
      1 ≤ authority.ownerKeyRevision ∧ authority.ownerKeyRevision ≤ maxSafe) :
    Browser.envelopeAad source authority = .ok c ↔ Service.envelopeAad (serviceSource source) (serviceAuthority authority) d = some c := by
  rw [Browser.envelopeAad, u64_eq_ok.mpr ⟨hrevision, rfl⟩, ok_bind, decodeBase64Url_eq_ok.mpr hd, ok_bind,
    u64_eq_ok.mpr ⟨hauthority.1, rfl⟩, ok_bind, u64_eq_ok.mpr ⟨hauthority.2, rfl⟩, ok_bind, Service.envelopeAad]
  simp only [serviceSource, serviceAuthority, toNat_ofNat hrevision.2, toNat_ofNat hauthority.1.2, toNat_ofNat hauthority.2.2]
  exact prefixAll_iff

/-- The source of a record of an owner. -/
structure RecordOf (context : Browser.OwnerKeyContext) (item : Browser.OwnerRecordContext) (s : VaultRecordSource) : Prop where
  origin : s.origin = context.origin
  ownerId : s.ownerId = context.ownerId
  vaultId : s.vaultId = context.vaultId
  collectionId : s.collectionId = item.collectionId
  recordId : s.recordId = item.recordId
  kind : s.kind = item.kind
  revision : s.revision = item.revision

section
variable [Primitives]

theorem ownerKeyContext_eq_ok {context c : Browser.OwnerKeyContext} (h : Browser.ownerKeyContext context = .ok c) : c = context := by
  unfold Browser.ownerKeyContext at h
  obtain ⟨⟨scheme, origin⟩, -, h⟩ := bind_eq_ok.mp h
  dsimp only at h
  simp only [check_bind_eq_ok, pure_eq_ok] at h
  exact h.2.2.2.2.symm

theorem recordAad_iff {context : Browser.OwnerKeyContext} {item : Browser.OwnerRecordContext} {source : VaultRecordSource}
    (hof : RecordOf context item source) (hcontext : Browser.ownerKeyContext context = .ok context)
    (hitem : Browser.recordContext item = .ok item) {c : Bytes} :
    Browser.recordAad "mikaki-vault-record-content" context item = .ok c ↔ Service.contentAad (serviceSource source) = some c := by
  have hrevision := (recordContext_eq_ok hitem).2
  rw [← hof.revision] at hrevision
  rw [Browser.recordAad, hitem, ok_bind, hcontext, ok_bind, if_pos rfl, ok_bind, Service.contentAad]
  simp only [serviceSource, toNat_ofNat hrevision, hof.origin, hof.ownerId, hof.vaultId, hof.collectionId, hof.recordId, hof.kind]
  rw [hof.revision]
  exact prefixAll_iff

/-! ## Opening -/

/-- The parts of a frame that was sealed. -/
theorem Sealed.parts (hc : Correct) {dataKey : Bytes} {source : VaultRecordSource} {authority : VaultRecordAuthority} {body pk : Bytes}
    {generation : Nat} {coins frame : Bytes} (hs : Sealed dataKey source authority body pk generation coins frame) :
    ∃ info aad enc shared, Browser.envelopeInfo (Sha.sha256 pk) (Framing.be64 generation) = .ok info ∧
      Browser.envelopeAad source authority = .ok aad ∧ encapsulate pk coins = some (enc, shared) ∧ frame.length = Service.frameBytes ∧
      frame.take 4 = Text.bytes "MKVR" ∧ Service.slice frame 4 5 = [Service.version] ∧ Service.slice frame 5 11 = Service.suite ∧
      Service.slice frame 11 43 = Sha.sha256 pk ∧ Service.slice frame 43 51 = Framing.be64 generation ∧
      Service.slice frame 51 Service.encEnd = enc ∧
      frame.drop Service.encEnd = encrypt (Service.schedule shared info).1 (Service.schedule shared info).2 aad dataKey := by
  obtain ⟨info, aad, enc, shared, hinfo, haad, henc, rfl, hlen⟩ := hs.written
  have hcipher := (hc.cipher aad (length_schedule shared info).1 (length_schedule shared info).2
    (show dataKey.length < 2 ^ 32 by rw [hs.length]; decide)).1
  have hmagic : (Browser.magic ++ Browser.version ++ Browser.suite).length = 11 := by decide
  have he : enc.length = 1088 := by
    simp only [List.length_append, hcipher, hs.length, Sha.length_sha256, Framing.length_be64] at hlen hmagic
    omega
  exact ⟨info, aad, enc, shared, hinfo, haad, henc, hlen, frame_parts (Sha.length_sha256 pk) (Framing.length_be64 generation) he⟩

/-- A frame is opened under what it was sealed with. -/
theorem open_sealed (hc : Correct) {raw : Vector UInt8 32} {source : VaultRecordSource} {authority : VaultRecordAuthority}
    {body pk : Bytes} {generation : Nat} {coins frame : Bytes} (hs : Sealed raw.toList source authority body pk generation coins frame)
    (ha : Admitted source) (hauthority : (1 ≤ authority.keyGeneration ∧ authority.keyGeneration ≤ maxSafe) ∧
      1 ≤ authority.ownerKeyRevision ∧ authority.ownerKeyRevision ≤ maxSafe) (hlen : pk.length = 1184) {seed : Vector UInt8 64}
    (hseed : Primitives.publicKey seed.toList = some pk) :
    Service.openRecordDataKey seed pk (Base64url.encode (Sha.sha256 pk)) (UInt64.ofNat generation) frame
      ⟨serviceSource source, serviceAuthority authority, body⟩ = some raw := by
  obtain ⟨info, aad, enc, shared, hinfo, haad, henc, hframe, h4, h5, h11, h43, h51, hencEnd, hcipher⟩ := hs.parts hc
  have hgeneration := toNat_ofNat hs.positive.2
  have hdecrypt := (hc.cipher aad (length_schedule shared info).1 (length_schedule shared info).2
    (show raw.toList.length < 2 ^ 32 by rw [hs.length]; decide)).2
  have hopened : Service.openHpke seed.toList enc info aad
      (encrypt (Service.schedule shared info).1 (Service.schedule shared info).2 aad raw.toList) = some raw.toList := by
    rw [Service.openHpke, hc.agreement hseed henc]
    exact hdecrypt
  have hdigest : Base64url.encode (Sha.sha256 body) = (serviceSource source).ciphertextSha256 := hs.stored.digest
  rw [Service.openRecordDataKey]
  dsimp only
  rw [envelopeInfo_iff hs.positive.2] at hinfo
  rw [envelopeAad_iff ha.revision hs.stored.decode hauthority] at haad
  simp only [inRange_ofNat hs.positive, valid_serviceSource ha hs.isName, valid_serviceAuthority hauthority, hdigest, hs.stored.short,
    hs.stored.long, hs.stored.version, hlen, hframe, h4, h5, h11, h43, h51, hgeneration, beq_self_eq_true, decide_true, Bool.and_self,
    guard_true, hseed, hinfo, haad, hencEnd, hcipher, hopened, Option.pure_def, Option.bind_eq_bind, Option.bind_some, toKey_toList]

/-- No other associated data opens what was encrypted with some. -/
def Unforged (aad aad' : Bytes) : Prop := ∀ key nonce msg out, decrypt key nonce aad' (encrypt key nonce aad msg) = some out → aad' = aad

theorem openRecordDataKey_eq_some {seed : Vector UInt8 64} {pk : Bytes} {keyId : String} {generation : UInt64} {frame : Bytes}
    {binding : RecordBinding} {out : Vector UInt8 32} (h : Service.openRecordDataKey seed pk keyId generation frame binding = some out) :
    binding.source.valid = true ∧ Base64url.encode (Sha.sha256 binding.ciphertext) = binding.source.ciphertextSha256 ∧
      Service.slice frame 43 51 = Framing.be64 generation.toNat ∧ Primitives.publicKey seed.toList = some pk ∧
      keyId = Base64url.encode (Sha.sha256 pk) ∧ Service.slice frame 11 43 = Sha.sha256 pk ∧
      ∃ info aad bytes, Service.envelopeInfo (Sha.sha256 pk) generation = some info ∧
        Service.envelopeAad binding.source binding.authority (Sha.sha256 binding.ciphertext) = some aad ∧
        Service.openHpke seed.toList (Service.slice frame 51 Service.encEnd) info aad (frame.drop Service.encEnd) = some bytes := by
  unfold Service.openRecordDataKey at h
  simp only [Option.bind_eq_bind, Option.bind_eq_some_iff, Option.guard_eq_some', exists_unit, Bool.and_eq_true, beq_iff_eq] at h
  obtain ⟨⟨⟨⟨⟨⟨⟨⟨⟨⟨⟨⟨⟨-, hvalid⟩, -⟩, hdigest⟩, -⟩, -⟩, -⟩, -⟩, -⟩, -⟩, -⟩, -⟩, hgeneration⟩, derived, hderived, rfl, ⟨hid, hframe⟩,
    info, hinfo, aad, haad, bytes, hbytes, -⟩ := h
  exact ⟨hvalid, hdigest, hgeneration, hderived, hid, hframe, info, aad, bytes, hinfo, haad, hbytes⟩

/-- The fields of a source that a context determines, with what is fixed for a name. -/
theorem source_eq {s t : RecordSource} (hs : s.valid = true) (ht : t.valid = true) (horigin : s.origin = t.origin)
    (howner : s.ownerId = t.ownerId) (hvault : s.vaultId = t.vaultId) (hrevision : s.revision = t.revision)
    (hdigest : s.ciphertextSha256 = t.ciphertextSha256) : s = t := by
  simp only [RecordSource.valid, Bool.and_eq_true, beq_iff_eq] at hs ht
  obtain ⟨⟨⟨⟨⟨⟨⟨⟨hs1, -⟩, -⟩, -⟩, hs2⟩, hs3⟩, hs4⟩, -⟩, -⟩ := hs
  obtain ⟨⟨⟨⟨⟨⟨⟨⟨ht1, -⟩, -⟩, -⟩, ht2⟩, ht3⟩, ht4⟩, -⟩, -⟩ := ht
  cases s
  cases t
  simp_all

/-- An envelope's context determines the source, the authority and the digest. -/
theorem envelopeAad_inj {s t : RecordSource} {a b : RecordAuthority} {d e c : Bytes} (hs : s.valid = true) (ht : t.valid = true)
    (hd : Base64url.encode d = s.ciphertextSha256) (he : Base64url.encode e = t.ciphertextSha256)
    (h₁ : Service.envelopeAad s a d = some c) (h₂ : Service.envelopeAad t b e = some c) : s = t ∧ a = b := by
  have hparts := context_inj h₁ h₂ rfl
  simp only [List.cons.injEq, and_true, true_and] at hparts
  obtain ⟨horigin, howner, hvault, -, -, -, hrevision, hdigest, hkey, howned⟩ := hparts
  refine ⟨source_eq hs ht (Text.bytes_inj horigin) (Text.bytes_inj howner) (Text.bytes_inj hvault) (be64_uint64 hrevision) ?_, ?_⟩
  · rw [← hd, ← he, hdigest]
  · cases a
    cases b
    simp only [RecordAuthority.mk.injEq]
    exact ⟨be64_uint64 hkey, be64_uint64 howned⟩

/-- A frame is opened under nothing but what it was sealed with. -/
theorem open_binds (hc : Correct) {dataKey : Bytes} {source : VaultRecordSource} {authority : VaultRecordAuthority}
    {body pk : Bytes} {generation : Nat} {coins frame : Bytes} (hs : Sealed dataKey source authority body pk generation coins frame)
    (ha : Admitted source) (hauthority : (1 ≤ authority.keyGeneration ∧ authority.keyGeneration ≤ maxSafe) ∧
      1 ≤ authority.ownerKeyRevision ∧ authority.ownerKeyRevision ≤ maxSafe) {seed : Vector UInt8 64} {pk' : Bytes} {keyId : String}
    {generation' : UInt64} {other : RecordBinding} {out : Vector UInt8 32}
    (hopen : Service.openRecordDataKey seed pk' keyId generation' frame other = some out)
    (hhash : Sha.sha256 pk' = Sha.sha256 pk → pk' = pk)
    (hforge : ∀ aad aad', Browser.envelopeAad source authority = .ok aad →
      Service.envelopeAad other.source other.authority (Sha.sha256 other.ciphertext) = some aad' → Unforged aad aad') :
    other.source = serviceSource source ∧ other.authority = serviceAuthority authority ∧ pk' = pk ∧
      keyId = Base64url.encode (Sha.sha256 pk) ∧ generation' = UInt64.ofNat generation := by
  obtain ⟨info, aad, enc, shared, hinfo, haad, henc, -, -, -, -, h43, h51, hencEnd, hcipher⟩ := hs.parts hc
  obtain ⟨hvalid, hdigest, hgeneration, hderived, hid, hframe, info', aad', bytes, hinfo', haad', hbytes⟩ := openRecordDataKey_eq_some hopen
  have hpk : pk' = pk := hhash (hframe.symm.trans h43)
  subst hpk
  have hsame : generation' = UInt64.ofNat generation := by
    refine be64_uint64 ?_
    rw [toNat_ofNat hs.positive.2, ← hgeneration, h51]
  subst hsame
  -- The key id and the generation are those of the frame, so that the key and the nonce are too.
  have hinfoEq : info' = info := by
    rw [envelopeInfo_iff hs.positive.2, hinfo'] at hinfo
    exact Option.some.inj hinfo
  subst hinfoEq
  rw [Service.openHpke, hencEnd, hc.agreement hderived henc, hcipher] at hbytes
  have hEq : aad' = aad := hforge aad aad' haad haad' _ _ _ _ hbytes
  subst hEq
  rw [envelopeAad_iff ha.revision hs.stored.decode hauthority] at haad
  obtain ⟨hsource, hauth⟩ := envelopeAad_inj hvalid (valid_serviceSource ha hs.isName) hdigest hs.stored.digest haad' haad
  exact ⟨hsource, hauth, rfl, hid, rfl⟩

end

/-! ## The name -/

theorem utf8_eq_some {bs : Bytes} {s : String} : Text.utf8 bs = some s ↔ Text.bytes s = bs := by
  refine ⟨Text.bytes_utf8, fun h => ?_⟩
  rw [← h]
  exact Text.utf8_bytes s

theorem recordMaxBytes_le (item : Browser.OwnerRecordContext) : Browser.recordMaxBytes item ≤ 2 * 1024 * 1024 := by
  unfold Browser.recordMaxBytes
  split <;> decide

section
variable [Primitives]

/-- The text of a record holds a plaintext under a key of its own. -/
structure Content (raw : Vector UInt8 32) (plaintext : Bytes) (context : Browser.OwnerKeyContext) (item : Browser.OwnerRecordContext)
    (ciphertext : String) : Prop where
  fits : plaintext.length ≤ Browser.recordMaxBytes item - 29
  admitted : Browser.ownerKeyContext context = .ok context
  named : Browser.recordContext item = .ok item
  written : ∃ (nonce : Vector UInt8 12) (aad : Bytes), Browser.recordAad "mikaki-vault-record-content" context item = .ok aad ∧
    ciphertext = Base64url.encode (2 :: nonce.toList ++ encrypt raw.toList nonce.toList aad plaintext)

theorem recordAad_eq_ok {purpose : String} {context : Browser.OwnerKeyContext} {item : Browser.OwnerRecordContext} {aad : Bytes}
    (h : Browser.recordAad purpose context item = .ok aad) :
    Browser.ownerKeyContext context = .ok context ∧ Browser.recordContext item = .ok item := by
  unfold Browser.recordAad at h
  obtain ⟨r, hr, h⟩ := bind_eq_ok.mp h
  obtain ⟨c, hc, -⟩ := bind_eq_ok.mp h
  obtain ⟨rfl, -⟩ := recordContext_eq_ok hr
  obtain rfl := ownerKeyContext_eq_ok hc
  exact ⟨hc, hr⟩

theorem Content.length_lt {raw : Vector UInt8 32} {plaintext : Bytes} {context : Browser.OwnerKeyContext}
    {item : Browser.OwnerRecordContext} {ciphertext : String} (h : Content raw plaintext context item ciphertext) :
    plaintext.length < 2 ^ 32 := by
  have hmax := recordMaxBytes_le item
  have hfits := h.fits
  omega

/-- What a record of an owner was sealed with. -/
theorem sealOwnerRecord_eq_ok {plaintext : Bytes} {key : Browser.CryptoKey} {context : Browser.OwnerKeyContext}
    {item : Browser.OwnerRecordContext} {raw : Vector UInt8 32} {nonce wrapNonce : Vector UInt8 12} {record : Browser.OwnerRecord}
    (h : Browser.sealOwnerRecord plaintext key context item raw nonce wrapNonce = .ok record) :
    Browser.ownerHandle key = .ok () ∧ Content raw plaintext context item record.ciphertext ∧
      ∃ aad, Browser.recordAad "mikaki-vault-record-key" context item = .ok aad ∧
        record.keyEnvelope = Base64url.encode (2 :: wrapNonce.toList ++ encrypt key.raw wrapNonce.toList aad raw.toList) := by
  unfold Browser.sealOwnerRecord at h
  rw [check_bind_eq_ok, check_bind_eq_ok, denyIf_eq_ok, Nat.not_lt] at h
  obtain ⟨hkey, hlen, h⟩ := h
  obtain ⟨content, hcontent, h⟩ := bind_eq_ok.mp h
  obtain ⟨keyAad, hkeyAad, h⟩ := bind_eq_ok.mp h
  cases h
  obtain ⟨hcontext, hitem⟩ := recordAad_eq_ok hcontent
  exact ⟨hkey, ⟨by omega, hcontext, hitem, nonce, content, hcontent, rfl⟩, keyAad, hkeyAad, rfl⟩

/-- A name that was sealed is read where it is a text within the limits. -/
theorem decryptRecordName_iff (hc : Correct) {plaintext : Bytes} {context : Browser.OwnerKeyContext} {item : Browser.OwnerRecordContext}
    {raw : Vector UInt8 32} {ciphertext : String} (hcontents : Content raw plaintext context item ciphertext) {body : Bytes}
    (hbody : decodeBase64Url ciphertext = .ok body) {source : VaultRecordSource} (hof : RecordOf context item source)
    (ha : Admitted source) (hname : source.recordId = "name") (hstored : Body body source.ciphertextSha256) {name : String} :
    Service.decryptRecordName raw (serviceSource source) body = some name ↔
      Text.bytes name = plaintext ∧ plaintext ≠ [] ∧ plaintext.length ≤ 1024 ∧ Service.utf16Count name ≤ 256 := by
  obtain ⟨nonce, content, hcontent, hcipher⟩ := hcontents.written
  rw [hcipher, decodeBase64Url_eq_ok, Base64url.decode_encode, Option.some.injEq] at hbody
  obtain ⟨-, hnonce, hsealed, -⟩ := versioned_parts nonce (encrypt raw.toList nonce.toList content plaintext)
  rw [hbody] at hnonce hsealed
  have hdecrypt := (hc.cipher content (Vector.length_toList : raw.toList.length = 32) (Vector.length_toList : nonce.toList.length = 12)
    hcontents.length_lt).2
  have hdigest : Base64url.encode (Sha.sha256 body) = (serviceSource source).ciphertextSha256 := hstored.digest
  rw [recordAad_iff hof hcontents.admitted hcontents.named] at hcontent
  rw [Service.decryptRecordName]
  simp only [valid_serviceSource ha hname, hstored.short, hstored.long, hstored.version, hdigest, beq_self_eq_true, decide_true,
    Bool.and_self, guard_true, hcontent, hnonce, hsealed, hdecrypt, Option.pure_def, Option.bind_eq_bind, Option.bind_some,
    Option.bind_eq_some_iff, Option.guard_eq_some', exists_unit, Bool.and_eq_true, Bool.not_eq_true', List.isEmpty_eq_false_iff,
    decide_eq_true_eq, Option.some.injEq, utf8_eq_some]
  constructor
  · rintro ⟨⟨hne, hshort⟩, _, hbytes, hunits, rfl⟩
    exact ⟨hbytes, hne, hshort, hunits⟩
  · rintro ⟨hbytes, hne, hshort, hunits⟩
    exact ⟨⟨hne, hshort⟩, name, hbytes, hunits, rfl⟩

/-- What a browser seals for a service the service opens, and under no other source, authority, key or generation. -/
theorem shared_name (hc : Correct) :
    (∀ {context item source c}, RecordOf context item source → Browser.ownerKeyContext context = .ok context →
      Browser.recordContext item = .ok item →
      (Browser.recordAad "mikaki-vault-record-content" context item = .ok c ↔ Service.contentAad (serviceSource source) = some c)) ∧
    (∀ {sourceValue authorityValue source authority digest c}, Browser.parseVaultRecordSource sourceValue = .ok source →
      Browser.parseVaultRecordAuthority authorityValue = .ok authority → Base64url.decode source.ciphertextSha256 = some digest →
      (Browser.envelopeAad source authority = .ok c ↔
        Service.envelopeAad (serviceSource source) (serviceAuthority authority) digest = some c)) ∧
    (∀ {keyId generation c}, generation ≤ maxSafe →
      (Browser.envelopeInfo keyId (Framing.be64 generation) = .ok c ↔ Service.envelopeInfo keyId (UInt64.ofNat generation) = some c)) ∧
    ∀ {plaintext key context item nonce wrapNonce record source authority entry recipient pk coins frame} {raw : Vector UInt8 32}
      {binding : Browser.RecordUserInfoWrapContext} {seed : Vector UInt8 64},
      Browser.sealOwnerRecord plaintext key context item raw nonce wrapNonce = .ok record → binding.ciphertext = record.ciphertext →
      Browser.parseVaultRecordSource binding.source = .ok source → RecordOf context item source →
      Browser.parseVaultRecordAuthority binding.authority = .ok authority →
      Browser.validateRecordUserInfoRecipient entry = .ok recipient → Base64url.decode recipient.publicKey = some pk →
      Primitives.publicKey seed.toList = some pk → Browser.sealRecordUserInfoDataKey raw.toList entry binding coins = .ok frame →
      ∃ body, decodeBase64Url record.ciphertext = .ok body ∧
        Service.openRecordDataKey seed pk recipient.keyId (UInt64.ofNat recipient.generation) frame
          ⟨serviceSource source, serviceAuthority authority, body⟩ = some raw ∧
        (∀ name, Service.decryptRecordName raw (serviceSource source) body = some name ↔
          Text.bytes name = plaintext ∧ plaintext ≠ [] ∧ plaintext.length ≤ 1024 ∧ Service.utf16Count name ≤ 256) ∧
        ∀ {seed' pk' keyId generation' out} {other : RecordBinding},
          Service.openRecordDataKey seed' pk' keyId generation' frame other = some out → (Sha.sha256 pk' = Sha.sha256 pk → pk' = pk) →
          (∀ aad aad', Browser.envelopeAad source authority = .ok aad →
            Service.envelopeAad other.source other.authority (Sha.sha256 other.ciphertext) = some aad' → Unforged aad aad') →
          other.source = serviceSource source ∧ other.authority = serviceAuthority authority ∧ pk' = pk ∧ keyId = recipient.keyId ∧
            generation' = UInt64.ofNat recipient.generation := by
  refine ⟨fun hof hcontext hitem => recordAad_iff hof hcontext hitem, fun hsource hauthority hdigest => ?_, envelopeInfo_iff, ?_⟩
  · exact envelopeAad_iff (parseVaultRecordSource_eq_ok hsource).revision hdigest (parseVaultRecordAuthority_eq_ok hauthority)
  intro plaintext key context item nonce wrapNonce record source authority entry recipient pk coins frame raw binding seed hrecord hcipher
    hsource hof hauthority hrecipient hpk hseed hseal
  obtain ⟨-, hcontents, -⟩ := sealOwnerRecord_eq_ok hrecord
  obtain ⟨nonce, content, -, htext⟩ := hcontents.written
  have hbody : decodeBase64Url binding.ciphertext =
      .ok (2 :: nonce.toList ++ encrypt raw.toList nonce.toList content plaintext) := by
    rw [hcipher, htext]
    exact decodeBase64Url_eq_ok.mpr (Base64url.decode_encode _)
  have ha := parseVaultRecordSource_eq_ok hsource
  have hbounds := parseVaultRecordAuthority_eq_ok hauthority
  obtain ⟨hlen, hkeyId, -⟩ := validate_eq_ok hrecipient hpk
  have hs := sealed_of_seal hsource hauthority hbody hrecipient hpk hseal
  rw [hcipher] at hbody
  rw [hkeyId]
  refine ⟨_, hbody, open_sealed hc hs ha hbounds hlen hseed, fun name => ?_, fun hopen hhash hforge => ?_⟩
  · exact decryptRecordName_iff hc hcontents hbody hof ha hs.isName hs.stored
  · exact open_binds hc hs ha hbounds hopen hhash hforge

end

/-! ## Both sides admit the same -/

/-- A source as the service writes it. -/
def sourceJson (s : RecordSource) : Json.Value :=
  .obj [("storage_version", .num s.storageVersion.toNat), ("origin", .str s.origin), ("owner_id", .str s.ownerId), ("vault_id", .str s.vaultId),
    ("collection_id", .str s.collectionId), ("record_id", .str s.recordId), ("kind", .str s.kind), ("revision", .num s.revision.toNat),
    ("ciphertext_sha256", .str s.ciphertextSha256)]

def authorityJson (a : RecordAuthority) : Json.Value :=
  .obj [("key_generation", .num a.keyGeneration.toNat), ("owner_key_revision", .num a.ownerKeyRevision.toNat)]

/-- A source as the browser reads it. -/
def browserSource (s : RecordSource) : VaultRecordSource :=
  ⟨s.origin, s.ownerId, s.vaultId, s.collectionId, s.recordId, s.kind, s.revision.toNat, s.ciphertextSha256⟩

def browserAuthority (a : RecordAuthority) : VaultRecordAuthority := ⟨a.keyGeneration.toNat, a.ownerKeyRevision.toNat⟩

theorem byte_letter {b : UInt8} (h : (Text.isAlphanumeric b || b == 45 || b == 95) = true) :
    b.toNat < 128 ∧ Base64url.urlSafe (Char.ofNat b.toNat) = true := by
  have hall : ∀ n < 256, (Text.isAlphanumeric (UInt8.ofNat n) || UInt8.ofNat n == 45 || UInt8.ofNat n == 95) = true →
      n < 128 ∧ Base64url.urlSafe (Char.ofNat n) = true := by decide +kernel
  refine hall b.toNat b.toNat_lt ?_
  rw [UInt8.ofNat_toNat]
  exact h

theorem letters_of_isIdentifier {s : String} (h : Service.isIdentifier s = true) : letters 1 128 s = true := by
  simp only [Service.isIdentifier, Bool.and_eq_true, Bool.not_eq_true', List.isEmpty_eq_false_iff, decide_eq_true_eq, List.all_eq_true] at h
  obtain ⟨⟨hne, hlen⟩, hall⟩ := h
  have hchars := Text.forall_mem_of_bytes (p := fun b => (Text.isAlphanumeric b || b == 45 || b == 95) = true)
    (fun b hb => (byte_letter hb).1) hall
  have hsize := Text.size_ascii fun c hc => (hchars c hc).1
  rw [Text.length_bytes, hsize] at hlen
  have hpos : s.toList ≠ [] := by
    intro hnil
    rw [Text.bytes_eq, hnil] at hne
    exact hne rfl
  simp only [letters, Bool.and_eq_true, decide_eq_true_eq, List.all_eq_true]
  refine ⟨⟨List.length_pos_iff.mpr hpos, hlen⟩, fun c hc => ?_⟩
  obtain ⟨hlt, hbyte⟩ := hchars c hc
  have hletter := (byte_letter hbyte).2
  rw [Base64url.toNat_ofNat (Nat.lt_trans hlt (by decide)), Char.ofNat_toNat] at hletter
  exact hletter

theorem isIdentifier_iff {s : String} : Service.isIdentifier s = true ↔ letters 1 128 s = true :=
  ⟨letters_of_isIdentifier, isIdentifier_of_letters⟩

theorem letters_encode {bs : Bytes} (h : bs.length = 32) : letters 43 43 (Base64url.encode bs) = true := by
  simp only [letters, Base64url.encode, String.toList_ofList, Base64url.length_chars, h, Bool.and_eq_true, List.all_eq_true]
  exact ⟨by decide, Base64url.urlSafe_chars bs⟩

theorem sourceDigest_iff {s : String} : Browser.sourceDigest (.str s) = .ok s ↔ Service.isDigest s = true := by
  constructor
  · intro h
    obtain ⟨d, hlen, hd⟩ := sourceDigest_eq_ok h
    simp [Service.isDigest, hd, hlen, Base64url.encode_decode hd]
  · intro h
    unfold Service.isDigest at h
    split at h
    · rename_i d hd
      rw [Bool.and_eq_true, beq_iff_eq, beq_iff_eq] at h
      have hletters := letters_encode h.1
      rw [h.2] at hletters
      unfold Browser.sourceDigest
      simp [denyIf, hletters, decodeBase64Url_eq_ok.mpr hd, h.1, pure, Except.pure]
    · cases h

theorem positive_num {n : UInt64} : Browser.positive (.num n.toNat) = .ok n.toNat ↔ Service.inRange n = true := by
  simp only [Browser.positive, Service.inRange, Bool.and_eq_true, decide_eq_true_eq, UInt64.le_iff_toNat_le]
  split
  · exact iff_of_true rfl ‹_›
  · exact iff_of_false (fun h => by cases h) ‹_›

theorem object_obj {ms : List (String × Json.Value)} {names : List String} (hlen : ms.length = names.length)
    (hall : ∀ n ∈ names, (ms.lookup n).isNone = false) : Browser.object (.obj ms) names = .ok fun n => (ms.lookup n).getD .null := by
  refine if_neg ?_
  rintro (h | ⟨n, hn, h⟩)
  · exact h hlen
  · rw [hall n hn] at h
    cases h

theorem object_authorityJson (a : RecordAuthority) : ∃ input, Browser.object (authorityJson a) ["key_generation", "owner_key_revision"] = .ok input ∧
    input "key_generation" = .num a.keyGeneration.toNat ∧ input "owner_key_revision" = .num a.ownerKeyRevision.toNat :=
  ⟨_, object_obj rfl (by simp [List.lookup]), rfl, rfl⟩

theorem valid_authorityJson {a : RecordAuthority} :
    Browser.parseVaultRecordAuthority (authorityJson a) = .ok (browserAuthority a) ↔ a.valid = true := by
  obtain ⟨input, hobject, hgeneration, hrevision⟩ := object_authorityJson a
  rw [Browser.parseVaultRecordAuthority, hobject, ok_bind, hgeneration, hrevision, RecordAuthority.valid, Bool.and_eq_true, ← positive_num,
    ← positive_num]
  constructor
  · intro h
    obtain ⟨g, hg, h⟩ := bind_eq_ok.mp h
    obtain ⟨r, hr, h⟩ := bind_eq_ok.mp h
    cases h
    exact ⟨hg, hr⟩
  · rintro ⟨hg, hr⟩
    rw [hg, ok_bind, hr]
    rfl

theorem object_sourceJson (s : RecordSource) : ∃ input, Browser.object (sourceJson s) (["storage_version", "origin", "owner_id"] ++
      ["vault_id", "collection_id", "record_id", "kind"] ++ ["revision", "ciphertext_sha256"]) = .ok input ∧
    input "origin" = .str s.origin ∧ input "owner_id" = .str s.ownerId ∧ input "vault_id" = .str s.vaultId ∧
    input "collection_id" = .str s.collectionId ∧ input "record_id" = .str s.recordId ∧ input "kind" = .str s.kind ∧
    input "revision" = .num s.revision.toNat ∧ input "ciphertext_sha256" = .str s.ciphertextSha256 :=
  ⟨_, object_obj rfl (by simp [List.lookup]), rfl, rfl, rfl, rfl, rfl, rfl, rfl, rfl⟩

theorem serviceSource_browserSource {s : RecordSource} (h : s.storageVersion = 2) : serviceSource (browserSource s) = s := by
  simp [serviceSource, browserSource, ← h]

section
variable [Primitives]

theorem isOrigin_iff {s : String} : Browser.sourceOrigin (.str s) = .ok s ↔ Service.isOrigin s = true := by
  constructor
  · intro h
    simp [Service.isOrigin, sourceOrigin_eq_ok h]
  · intro h
    unfold Service.isOrigin at h
    split at h
    · rename_i scheme origin hp
      rw [Bool.and_eq_true, beq_iff_eq, beq_iff_eq] at h
      obtain ⟨rfl, rfl⟩ := h
      simp [Browser.sourceOrigin, orThrow, hp, denyIf, pure, Except.pure]
    · cases h

theorem storageVersion_sourceJson {s : RecordSource} {t : VaultRecordSource}
    (h : Browser.parseVaultRecordSource (sourceJson s) = .ok t) : s.storageVersion = 2 := by
  unfold Browser.parseVaultRecordSource Browser.parseVaultSource at h
  obtain ⟨source, h, -⟩ := bind_eq_ok.mp h
  obtain ⟨version, hversion, h⟩ := bind_eq_ok.mp h
  obtain ⟨input, hinput, -⟩ := bind_eq_ok.mp h
  have hv : (if s.storageVersion.toNat = 1 ∨ s.storageVersion.toNat = 2 then Except.ok s.storageVersion.toNat
      else .error "Unsupported Vault source version") = Except.ok version := hversion
  split at hv
  · rename_i hor
    cases hv
    obtain hone | htwo := hor
    · rw [hone, if_pos rfl] at hinput
      cases hinput
    · exact UInt8.toNat_inj.mp htwo
  · cases hv

/-- The browser admits a source for a name exactly where the service does. -/
theorem valid_sourceJson {s : RecordSource} (hname : s.recordId = "name") :
    Browser.parseVaultRecordSource (sourceJson s) = .ok (browserSource s) ↔ s.valid = true := by
  constructor
  · intro h
    have hvalid := valid_serviceSource (parseVaultRecordSource_eq_ok h) hname
    rw [serviceSource_browserSource (storageVersion_sourceJson h)] at hvalid
    exact hvalid
  · intro h
    simp only [RecordSource.valid, Bool.and_eq_true, beq_iff_eq] at h
    obtain ⟨⟨⟨⟨⟨⟨⟨⟨hversion, horigin⟩, howner⟩, hvault⟩, hcollection⟩, -⟩, hkind⟩, hrevision⟩, hdigest⟩ := h
    obtain ⟨input, hobject, h1, h2, h3, h4, h5, h6, h7, h8⟩ := object_sourceJson s
    have hstorage : Browser.storageVersion (sourceJson s) = .ok 2 := by
      unfold sourceJson
      rw [hversion]
      rfl
    have htarget : Browser.target (.str s.recordId) = .ok s.recordId := by
      rw [hname]
      rfl
    rw [Browser.parseVaultRecordSource, Browser.parseVaultSource, hstorage, ok_bind, if_neg (by decide), hobject, ok_bind, h1,
      isOrigin_iff.mpr horigin, ok_bind, h8, sourceDigest_iff.mpr hdigest, ok_bind, h2, Browser.identifier,
      if_pos (letters_of_isIdentifier howner), ok_bind, h7, positive_num.mpr hrevision, ok_bind, if_neg (by decide), h5, htarget, ok_bind,
      h4, h6, h3, Browser.identifier, if_pos (letters_of_isIdentifier hvault)]
    simp [denyIf, Json.Value.asStr, hcollection, hkind, hname, browserSource, pure, Except.pure]

end

/-! ## Sealing succeeds -/

/-- The entry of a recipient in the directory. -/
def recipientJson (pk : Bytes) (generation revision : Nat) : Json.Value :=
  .obj [("algorithm", .str "ML-KEM-768"), ("envelope_suite", .str "ML-KEM-768-HKDF-SHA256-AES-256-GCM-draft04-record-v2"),
    ("generation", .num generation), ("key_id", .str (Base64url.encode (Sha.sha256 pk))), ("public_key", .str (Base64url.encode pk)),
    ("revision", .num revision), ("service_id", .str "userinfo")]

theorem canonicalBase64Url_encode {bs : Bytes} (h : bs ≠ []) : Browser.canonicalBase64Url (Base64url.encode bs) = .ok bs := by
  have hne : Base64url.encode bs ≠ "" := by
    intro he
    have hd := Base64url.decode_encode bs
    rw [he] at hd
    exact h (Option.some.inj hd).symm
  have hall : (Base64url.encode bs).toList.all Base64url.urlSafe = true := by
    rw [Base64url.encode, String.toList_ofList, List.all_eq_true]
    exact Base64url.urlSafe_chars bs
  rw [Browser.canonicalBase64Url, denyIf, if_neg (by rw [hall]; simp [hne]), ok_bind, Base64url.decode_encode]
  rfl

theorem validate_recipientJson {pk : Bytes} (hlen : pk.length = 1184) {generation revision : Nat}
    (hg : 1 ≤ generation ∧ generation ≤ maxSafe) (hr : 1 ≤ revision ∧ revision ≤ maxSafe) :
    Browser.validateRecordUserInfoRecipient (recipientJson pk generation revision) =
      .ok ⟨Base64url.encode (Sha.sha256 pk), Base64url.encode pk, generation, revision⟩ := by
  have hkeys : ",".intercalate ["algorithm", "envelope_suite", "generation", "key_id", "public_key", "revision", "service_id"].mergeSort =
      Browser.recipientFields := by
    rw [List.mergeSort_of_pairwise (by decide +kernel)]
    rfl
  have hid := letters_encode (Sha.length_sha256 pk)
  have hne : pk ≠ [] := by
    intro h
    rw [h] at hlen
    cases hlen
  rw [recipientJson, Browser.validateRecordUserInfoRecipient]
  simp only [List.map_cons, List.map_nil, hkeys, ne_eq, not_true, denyIf_false, ok_bind]
  have hmembers : Browser.recipientMembers [("algorithm", .str "ML-KEM-768"),
      ("envelope_suite", .str "ML-KEM-768-HKDF-SHA256-AES-256-GCM-draft04-record-v2"), ("generation", .num generation),
      ("key_id", .str (Base64url.encode (Sha.sha256 pk))), ("public_key", .str (Base64url.encode pk)), ("revision", .num revision),
      ("service_id", .str "userinfo")] = some ⟨Base64url.encode (Sha.sha256 pk), Base64url.encode pk, generation, revision⟩ := by
    simp [Browser.recipientMembers, List.lookup, Json.Value.asStr, hid, Browser.counter, hg, hr, guard]
  rw [hmembers, orThrow, ok_bind, canonicalBase64Url_encode hne, ok_bind]
  simp [denyIf, hlen, pure, Except.pure]

theorem vaultCiphertextDigest_encode {body : Bytes} {digest : String} (h : Body body digest) :
    Browser.vaultCiphertextDigest (Base64url.encode body) = .ok digest := by
  have hlen : ¬(Base64url.encode body).toList.length > 32768 := by
    rw [Base64url.encode, String.toList_ofList, Base64url.length_chars]
    have hlong := h.long
    omega
  have hsize : ¬(body.length < 29 ∨ body.length > 24576) := by
    have hshort := h.short
    have hlong := h.long
    omega
  rw [Browser.vaultCiphertextDigest, denyIf, if_neg hlen, ok_bind, decodeBase64Url_eq_ok.mpr (Base64url.decode_encode _), ok_bind, denyIf,
    if_neg hsize, ok_bind, Browser.encodeBase64Url, h.digest]
  rfl

theorem length_identifier {s : String} (h : Service.isIdentifier s = true) : (Text.bytes s).length < 2 ^ 16 := by
  simp only [Service.isIdentifier, Bool.and_eq_true, decide_eq_true_eq] at h
  exact Nat.lt_of_le_of_lt h.1.2 (by decide)

section
variable [Primitives]

/-- The context of an envelope is there where the origin is short. -/
theorem envelopeAad_isSome {s : RecordSource} {a : RecordAuthority} {d : Bytes} (hs : s.valid = true) (hd : d.length = 32)
    (horigin : s.origin.utf8ByteSize < 2 ^ 16) : ∃ aad, Service.envelopeAad s a d = some aad := by
  simp only [RecordSource.valid, Bool.and_eq_true, beq_iff_eq] at hs
  obtain ⟨⟨⟨⟨⟨⟨⟨⟨-, -⟩, howner⟩, hvault⟩, hcollection⟩, hrecord⟩, hkind⟩, -⟩, -⟩ := hs
  refine ⟨_, context_eq_some.mpr ⟨?_, rfl⟩⟩
  rw [hcollection, hrecord, hkind]
  simp only [List.forall_mem_cons, List.not_mem_nil, false_imp_iff, implies_true, and_true, Text.length_bytes, Framing.length_be64, hd]
  exact ⟨by decide, horigin, length_identifier howner, length_identifier hvault, by decide, by decide, by decide, by decide, by decide,
    by decide, by decide, by decide, by decide⟩

/-- A frame is made of everything that the service admits. -/
theorem seal_complete (hc : Correct) {source : RecordSource} (hsource : source.valid = true) (horigin : source.origin.utf8ByteSize < 2 ^ 16)
    {authority : RecordAuthority} (hauthority : authority.valid = true) {body : Bytes} (hbody : Body body source.ciphertextSha256)
    {pk : Bytes} (hlen : pk.length = 1184) {generation revision : Nat} (hg : 1 ≤ generation ∧ generation ≤ maxSafe)
    (hr : 1 ≤ revision ∧ revision ≤ maxSafe) {coins enc shared : Bytes} (henc : encapsulate pk coins = some (enc, shared))
    (hencLen : enc.length = 1088) (raw : Vector UInt8 32) : ∃ frame, Browser.sealRecordUserInfoDataKey raw.toList
      (recipientJson pk generation revision) ⟨sourceJson source, authorityJson authority, Base64url.encode body⟩ coins = .ok frame := by
  have hname : source.recordId = "name" ∧ source.kind = "name" ∧ source.storageVersion = 2 := by
    simp only [RecordSource.valid, Bool.and_eq_true, beq_iff_eq] at hsource
    exact ⟨hsource.1.1.1.2, hsource.1.1.2, hsource.1.1.1.1.1.1.1.1⟩
  have hparsed := (valid_sourceJson hname.1).mpr hsource
  have hparsedAuthority := valid_authorityJson.mpr hauthority
  have ha := parseVaultRecordSource_eq_ok hparsed
  have hbounds := parseVaultRecordAuthority_eq_ok hparsedAuthority
  obtain ⟨aad, haad⟩ := envelopeAad_isSome (a := authority) hsource (Sha.length_sha256 body) horigin
  have haad' : Browser.envelopeAad (browserSource source) (browserAuthority authority) = .ok aad := by
    refine (envelopeAad_iff ha.revision hbody.decode hbounds).mpr ?_
    rw [serviceSource_browserSource hname.2.2]
    have hservice : serviceAuthority (browserAuthority authority) = authority := by simp [serviceAuthority, browserAuthority]
    rw [hservice]
    exact haad
  obtain ⟨info, hinfo⟩ : ∃ info, Browser.envelopeInfo (Sha.sha256 pk) (Framing.be64 generation) = .ok info := by
    refine ⟨_, prefixAll_eq_ok.mpr ⟨?_, rfl⟩⟩
    simp only [List.forall_mem_cons, List.not_mem_nil, false_imp_iff, implies_true, and_true, Framing.length_be64, Sha.length_sha256]
    exact ⟨by decide, by decide, by decide, by decide, by decide, by decide⟩
  have hcipher := (hc.cipher aad (length_schedule shared info).1 (length_schedule shared info).2
    (show raw.toList.length < 2 ^ 32 by rw [Vector.length_toList]; decide)).1
  have hmagic : (Browser.magic ++ Browser.version ++ Browser.suite).length = 11 := by decide
  have hframe : ¬(Browser.magic ++ Browser.version ++ Browser.suite ++ Sha.sha256 pk ++ Framing.be64 generation ++ enc ++
      encrypt (Service.schedule shared info).1 (Service.schedule shared info).2 aad raw.toList).length ≠ Browser.frameBytes := by
    rw [not_not]
    simp only [List.length_append, hcipher, Vector.length_toList, Sha.length_sha256, Framing.length_be64, hencLen] at hmagic ⊢
    rw [hmagic]
    rfl
  have hwanted : ¬(raw.toList.length ≠ 32 ∨ (browserSource source).recordId ≠ "name" ∨ (browserSource source).kind ≠ "name") := by
    simp [browserSource, hname.1, hname.2.1]
  have hsame : ¬source.ciphertextSha256 ≠ (browserSource source).ciphertextSha256 := not_not.mpr rfl
  rw [Browser.sealRecordUserInfoDataKey, hparsed, ok_bind, hparsedAuthority, ok_bind, denyIf, if_neg hwanted, ok_bind,
    decodeBase64Url_eq_ok.mpr (Base64url.decode_encode body), ok_bind, denyIf, if_neg (not_not.mpr hbody.version), ok_bind,
    vaultCiphertextDigest_encode hbody, ok_bind, denyIf, if_neg hsame, ok_bind, validate_recipientJson hlen hg hr, ok_bind,
    decodeBase64Url_eq_ok.mpr (Base64url.decode_encode pk), ok_bind, decodeBase64Url_eq_ok.mpr (Base64url.decode_encode _), ok_bind,
    u64_eq_ok.mpr ⟨hg, rfl⟩, ok_bind, hinfo, ok_bind, haad', ok_bind, henc, orThrow, ok_bind]
  dsimp only
  rw [schedule_agrees, ok_bind]
  rw [denyIf, if_neg hframe]
  exact ⟨_, rfl⟩

end

/-! ## A small instance -/

namespace Sample

/-- A tag over all that a cipher is given. -/
def tagOf (key nonce aad msg : Bytes) : Bytes := (Sha.sha256 (key ++ nonce ++ aad ++ msg)).take 16

def publicOf (seed : Bytes) : Bytes := seed ++ List.replicate 1120 0

def padding : Bytes := List.replicate 1056 0

def secretOf (pk coins : Bytes) : Bytes := Sha.sha256 (pk ++ coins)

instance : Primitives where
  parseUrl s := if s = "https://v.example" then some ("https", s) else none
  publicKey seed := some (publicOf seed)
  encapsulate pk coins := if coins.length = 32 then some (coins ++ padding, secretOf pk coins) else none
  decapsulate seed enc := some (secretOf (publicOf seed) (enc.take 32))
  encrypt key nonce aad msg := msg ++ tagOf key nonce aad msg
  decrypt key nonce aad c :=
    let msg := c.take (c.length - 16)
    if c.drop (c.length - 16) = tagOf key nonce aad msg then some msg else none

theorem encapsulate_eq {pk coins enc shared : Bytes} (h : encapsulate pk coins = some (enc, shared)) :
    coins.length = 32 ∧ enc = coins ++ padding ∧ shared = secretOf pk coins := by
  change (if coins.length = 32 then some (coins ++ padding, secretOf pk coins) else none) = some (enc, shared) at h
  split at h
  · rename_i hlen
    obtain ⟨he, hs⟩ := Prod.mk.inj (Option.some.inj h)
    exact ⟨hlen, he.symm, hs.symm⟩
  · cases h

theorem correct : Correct where
  agreement := by
    intro seed pk coins enc shared hpk henc
    obtain ⟨hlen, he, hs⟩ := encapsulate_eq henc
    have hpk : publicOf seed = pk := Option.some.inj hpk
    change some (secretOf (publicOf seed) (enc.take 32)) = some shared
    rw [he, hs, hpk, List.take_left' hlen]
  cipher := by
    intro key nonce aad msg _ _ _
    have htag : (tagOf key nonce aad msg).length = 16 := rfl
    have hlen : (msg ++ tagOf key nonce aad msg).length - 16 = msg.length := by rw [List.length_append, htag, Nat.add_sub_cancel]
    refine ⟨List.length_append.trans (by rw [htag]), ?_⟩
    change (if (msg ++ tagOf key nonce aad msg).drop ((msg ++ tagOf key nonce aad msg).length - 16) =
        tagOf key nonce aad ((msg ++ tagOf key nonce aad msg).take ((msg ++ tagOf key nonce aad msg).length - 16)) then
      some ((msg ++ tagOf key nonce aad msg).take ((msg ++ tagOf key nonce aad msg).length - 16)) else none) = some msg
    rw [hlen, List.take_left, List.drop_left, if_pos rfl]

def context : Browser.OwnerKeyContext := ⟨"https://v.example", "owner", "vault", 3⟩

def item : Browser.OwnerRecordContext := ⟨"personal", "name", "name", 5⟩

def key : Browser.CryptoKey := ⟨"secret", false, "AES-GCM", some 256, ["encrypt", "decrypt"], List.replicate 32 9, by decide⟩

def raw : Vector UInt8 32 := Vector.replicate 32 5

def source (body : Bytes) : RecordSource :=
  ⟨2, "https://v.example", "owner", "vault", "personal", "name", "name", 5, Base64url.encode (Sha.sha256 body)⟩

def binding (body : Bytes) : Browser.RecordUserInfoWrapContext :=
  ⟨sourceJson (source body), authorityJson ⟨3, 4⟩, Base64url.encode body⟩

def seed : Vector UInt8 64 := Vector.replicate 64 1

theorem valid_source (body : Bytes) : (source body).valid = true := by
  have hdigest : Service.isDigest (Base64url.encode (Sha.sha256 body)) = true := by
    simp [Service.isDigest, Base64url.decode_encode, Sha.length_sha256]
  have hrest : (Service.isOrigin "https://v.example" && Service.isIdentifier "owner" && Service.isIdentifier "vault" &&
      Service.inRange 5) = true := by decide +kernel
  simp only [Bool.and_eq_true] at hrest
  simp only [RecordSource.valid, source, hrest, hdigest, beq_self_eq_true, Bool.and_self]

theorem sealed_record : ∃ record body, Browser.sealOwnerRecord (Text.bytes "Ada") key context item raw (Vector.replicate 12 6)
    (Vector.replicate 12 7) = .ok record ∧ record.ciphertext = Base64url.encode body ∧ Body body (source body).ciphertextSha256 := by
  obtain ⟨record, hrecord⟩ := ok_of_isOk (x := Browser.sealOwnerRecord (Text.bytes "Ada") key context item raw (Vector.replicate 12 6)
    (Vector.replicate 12 7)) (by decide +kernel)
  obtain ⟨-, hcontents, -⟩ := sealOwnerRecord_eq_ok hrecord
  obtain ⟨nonce, content, -, htext⟩ := hcontents.written
  have hsize : (Text.bytes "Ada").length = 3 := by decide
  have htag : (tagOf raw.toList nonce.toList content (Text.bytes "Ada")).length = 16 := rfl
  have hsealed : (encrypt raw.toList nonce.toList content (Text.bytes "Ada")).length = 19 := by
    change (Text.bytes "Ada" ++ tagOf raw.toList nonce.toList content (Text.bytes "Ada")).length = 19
    rw [List.length_append, hsize, htag]
  obtain ⟨hhead, -, -, hlen⟩ := versioned_parts nonce (encrypt raw.toList nonce.toList content (Text.bytes "Ada"))
  rw [hsealed] at hlen
  exact ⟨record, _, hrecord, htext, ⟨by rw [hlen]; decide, by rw [hlen]; decide, hhead, rfl⟩⟩

end Sample

/-- A name of three letters is sealed, opened and read. -/
theorem shared_name_sample : ∃ (frame body : Bytes) (seed : Vector UInt8 64) (pk : Bytes),
    Service.openRecordDataKey seed pk (Base64url.encode (Sha.sha256 pk)) 7 frame ⟨Sample.source body, ⟨3, 4⟩, body⟩ = some Sample.raw ∧
      Service.decryptRecordName Sample.raw (Sample.source body) body = some "Ada" := by
  obtain ⟨record, body, hrecord, htext, hstored⟩ := Sample.sealed_record
  have hvalid := Sample.valid_source body
  have hauthority : (⟨3, 4⟩ : RecordAuthority).valid = true := by decide
  have hpk : (Sample.publicOf Sample.seed.toList).length = 1184 := by
    rw [Sample.publicOf, List.length_append, Vector.length_toList, List.length_replicate]
  have hcoins : (List.replicate 32 (8 : UInt8)).length = 32 := List.length_replicate
  have hgeneration : 1 ≤ 7 ∧ 7 ≤ maxSafe := by decide
  have horigin : (Sample.source body).origin.utf8ByteSize < 2 ^ 16 := show "https://v.example".utf8ByteSize < 2 ^ 16 by decide
  have hpadding : Sample.padding.length = 1056 := List.length_replicate
  obtain ⟨frame, hframe⟩ := seal_complete Sample.correct hvalid horigin hauthority hstored hpk hgeneration hgeneration (if_pos hcoins)
    (by rw [List.length_append, hcoins, hpadding]) Sample.raw
  obtain ⟨-, -, -, hrun⟩ := shared_name Sample.correct
  have hcipher : (Sample.binding body).ciphertext = record.ciphertext := htext.symm
  have hsource : Browser.parseVaultRecordSource (Sample.binding body).source = .ok (browserSource (Sample.source body)) :=
    (valid_sourceJson rfl).mpr hvalid
  have hof : RecordOf Sample.context Sample.item (browserSource (Sample.source body)) := ⟨rfl, rfl, rfl, rfl, rfl, rfl, rfl⟩
  have hparsed : Browser.parseVaultRecordAuthority (Sample.binding body).authority = .ok (browserAuthority ⟨3, 4⟩) :=
    valid_authorityJson.mpr hauthority
  have hseed : Primitives.publicKey Sample.seed.toList = some (Sample.publicOf Sample.seed.toList) := rfl
  obtain ⟨body', hbody', hopen, hname, -⟩ := hrun hrecord hcipher hsource hof hparsed
    (validate_recipientJson hpk hgeneration hgeneration) (Base64url.decode_encode _) hseed hframe
  rw [htext, decodeBase64Url_eq_ok, Base64url.decode_encode, Option.some.injEq] at hbody'
  subst hbody'
  have hservice : serviceSource (browserSource (Sample.source body)) = Sample.source body := serviceSource_browserSource rfl
  rw [hservice] at hopen hname
  have hread := (hname "Ada").mpr ⟨rfl, by decide, by decide, by decide⟩
  exact ⟨frame, body, Sample.seed, Sample.publicOf Sample.seed.toList, hopen, hread⟩

end Mikaki.Vault.SharedName
