import Mikaki.Vault.OwnerCrypto
import Mikaki.Vault.OwnerKeys
import Mikaki.Vault.SharedName

/-!
# Keys and records of an owner are kept

A root key that was wrapped, and wrapped again for other credentials, is the
same root key for the last of them. A record is opened under the key and the
fields that it was sealed with, also behind any chain of rotations, and under no
other fields. The service admits every envelope that a browser makes.
-/

namespace Mikaki.Vault.OwnerCrypto

open Checks
open Browser (Bytes Primitives encrypt decrypt OwnerKeyContext OwnerRecordContext OwnerRecord OwnerKeyEnvelope CryptoKey decodeBase64Url
  orThrow)
open SharedName

/-! ## Encodings -/

theorem decode_encode {bs : Bytes} {min max : Nat} (h : min ≤ bs.length ∧ bs.length ≤ max) :
    Browser.decode (Base64url.encode bs) min max = .ok bs := by
  have hsize : ¬(Base64url.encode bs).toList.length > (max * 4 + 2) / 3 := by
    rw [Base64url.encode, String.toList_ofList, Base64url.length_chars]
    omega
  have hlen : ¬(bs.length < min ∨ bs.length > max) := by omega
  rw [Browser.decode, denyIf, if_neg hsize, ok_bind, decodeBase64Url_eq_ok.mpr (Base64url.decode_encode bs), ok_bind, denyIf, if_neg hlen]
  rfl

theorem decode_eq_ok {s : String} {min max : Nat} {bs : Bytes} (h : Browser.decode s min max = .ok bs) :
    s = Base64url.encode bs ∧ min ≤ bs.length ∧ bs.length ≤ max := by
  unfold Browser.decode at h
  obtain ⟨d, hd, h⟩ := bind_eq_ok.mp (check_bind_eq_ok.mp h).2
  rw [check_bind_eq_ok, denyIf_eq_ok, pure_eq_ok] at h
  obtain ⟨hlen, rfl⟩ := h
  exact ⟨(Base64url.encode_decode (decodeBase64Url_eq_ok.mp hd)).symm, by omega⟩

theorem exact_obj {ms : List (String × Json.Value)} {names : List String} (hlen : ms.length = names.length)
    (hall : ∀ n ∈ names, (ms.lookup n).isNone = false) : Browser.exact (.obj ms) names = .ok fun n => (ms.lookup n).getD .null := by
  refine if_neg ?_
  rintro (h | ⟨n, hn, h⟩)
  · exact h hlen
  · rw [hall n hn] at h
    cases h

/-- An envelope whose members have their lengths. -/
structure Canonical (e : OwnerKeyEnvelope) (credential input salt nonce wrapped : Bytes) : Prop where
  credentialId : e.credentialId = Base64url.encode credential ∧ 1 ≤ credential.length ∧ credential.length ≤ 512
  prfInput : e.prfInput = Base64url.encode input ∧ input.length = 32
  salt : e.salt = Base64url.encode salt ∧ salt.length = 32
  nonce : e.nonce = Base64url.encode nonce ∧ nonce.length = 12
  wrappedKey : e.wrappedKey = Base64url.encode wrapped ∧ wrapped.length = 48

theorem decode_fixed {s : String} {bs : Bytes} {n : Nat} (h : s = Base64url.encode bs ∧ bs.length = n) :
    Browser.decode s n n = .ok bs := by
  rw [h.1]
  exact decode_encode ⟨Nat.le_of_eq h.2.symm, Nat.le_of_eq h.2⟩

theorem parse_json {e : OwnerKeyEnvelope} {credential input salt nonce wrapped : Bytes} (h : Canonical e credential input salt nonce wrapped) :
    Browser.parseOwnerKeyEnvelope e.json = .ok e := by
  have hcredential : Browser.decode e.credentialId 1 512 = .ok credential := by
    rw [h.credentialId.1]
    exact decode_encode h.credentialId.2
  obtain ⟨members, hobject, h1, h2, h3, h4, h5, h6, h7⟩ : ∃ members, Browser.exact e.json ["format_version", "kind", "credential_id",
      "prf_input", "salt", "nonce", "wrapped_key"] = .ok members ∧ members "format_version" = .num 2 ∧ members "kind" = .str "owner-key" ∧
      members "credential_id" = .str e.credentialId ∧ members "prf_input" = .str e.prfInput ∧ members "salt" = .str e.salt ∧
      members "nonce" = .str e.nonce ∧ members "wrapped_key" = .str e.wrappedKey :=
    ⟨_, exact_obj rfl (by simp [List.lookup]), rfl, rfl, rfl, rfl, rfl, rfl, rfl⟩
  rw [Browser.parseOwnerKeyEnvelope, hobject, ok_bind, h1, h2, h3, h4, h5, h6, h7]
  simp [Browser.isTwo, Json.Value.asStr, orThrow, denyIf, hcredential, decode_fixed h.prfInput, decode_fixed h.salt, decode_fixed h.nonce,
    decode_fixed h.wrappedKey, pure, Except.pure]

/-! ## The owner's key -/

section
variable [Primitives]

/-- What is wrapped for a credential is unwrapped with it. -/
theorem wrap_spec (hc : Correct) {raw : Bytes} (hraw : raw.length = 32) {context : OwnerKeyContext} {credential input output : Bytes}
    {salt : Vector UInt8 32} {nonce : Vector UInt8 12} {e : OwnerKeyEnvelope}
    (h : Browser.wrap raw context credential input output salt nonce = .ok e) :
    Browser.unwrap e.json context credential output = .ok raw ∧ ∃ wrapped, Canonical e credential input salt.toList nonce.toList wrapped := by
  unfold Browser.wrap at h
  obtain ⟨c, hcontext, hrest⟩ := bind_eq_ok.mp h
  obtain rfl := ownerKeyContext_eq_ok hcontext
  rw [check_bind_eq_ok, denyIf_eq_ok] at hrest
  obtain ⟨hsizes, h⟩ := hrest
  obtain ⟨key, hkey, h⟩ := bind_eq_ok.mp h
  obtain ⟨aad, haad, h⟩ := bind_eq_ok.mp h
  cases h
  have hkeyLen : key.length = 32 := by
    unfold Browser.kek at hkey
    obtain ⟨info, -, hkey⟩ := bind_eq_ok.mp (check_bind_eq_ok.mp hkey).2
    cases hkey
    rfl
  obtain ⟨hlen, hdecrypt⟩ := hc.cipher aad hkeyLen (Vector.length_toList : nonce.toList.length = 12)
    (show raw.length < 2 ^ 32 by rw [hraw]; decide)
  have hcanonical : Canonical ⟨Base64url.encode credential, Base64url.encode input, Base64url.encode salt.toList, Base64url.encode nonce.toList,
      Base64url.encode (encrypt key nonce.toList aad raw)⟩ credential input salt.toList nonce.toList (encrypt key nonce.toList aad raw) :=
    { credentialId := ⟨rfl, by omega⟩
      prfInput := ⟨rfl, by omega⟩
      salt := ⟨rfl, Vector.length_toList⟩
      nonce := ⟨rfl, Vector.length_toList⟩
      wrappedKey := ⟨rfl, by rw [hlen, hraw]⟩ }
  refine ⟨?_, _, hcanonical⟩
  have hcredential : Browser.decode (Base64url.encode credential) 1 512 = .ok credential := decode_encode (by omega)
  have hsame : ¬Browser.encodeBase64Url credential ≠ Base64url.encode credential := not_not.mpr rfl
  have hparse := parse_json hcanonical
  rw [Browser.unwrap, hcontext, ok_bind]
  change (Browser.parseOwnerKeyEnvelope (OwnerKeyEnvelope.json ⟨Base64url.encode credential, Base64url.encode input,
    Base64url.encode salt.toList, Base64url.encode nonce.toList, Base64url.encode (encrypt key nonce.toList aad raw)⟩) >>= _) = _
  rw [hparse, ok_bind]
  dsimp only
  rw [hcredential, ok_bind, decode_fixed hcanonical.prfInput, ok_bind, denyIf, if_neg hsame, ok_bind, decode_fixed hcanonical.salt, ok_bind, hkey,
    ok_bind, decode_fixed hcanonical.nonce, ok_bind, haad, ok_bind, decode_fixed hcanonical.wrappedKey, ok_bind, hdecrypt]
  rfl

/-- An envelope that a chain of wraps of a root key has come to, with the credential it is for and what its PRF gives. -/
inductive Held (context : OwnerKeyContext) (raw : Vector UInt8 32) : OwnerKeyEnvelope → Bytes → Bytes → Prop
  | created {credential input output : Bytes} {salt : Vector UInt8 32} {nonce : Vector UInt8 12} {e : OwnerKeyEnvelope} {key : CryptoKey} :
    Browser.createOwnerKey context credential input output raw salt nonce = .ok (e, key) → Held context raw e credential output
  | rewrapped {e e' : OwnerKeyEnvelope} {credential output target input output' : Bytes} {salt : Vector UInt8 32} {nonce : Vector UInt8 12} :
    Held context raw e credential output →
    Browser.rewrapOwnerKey e.json context credential output target input output' salt nonce = .ok e' → Held context raw e' target output'
  | login {e e' : OwnerKeyEnvelope} {credential output output' : Bytes} {salt : Vector UInt8 32} {nonce : Vector UInt8 12} :
    Held context raw e credential output → Browser.wrapOwnerKeyForLogin e.json context credential output output' salt nonce = .ok e' →
    Held context raw e' credential output'

/-- Each step of a chain wraps the root key itself. -/
theorem Held.wrapped (hc : Correct) {context : OwnerKeyContext} {raw : Vector UInt8 32} {e : OwnerKeyEnvelope} {credential output : Bytes}
    (h : Held context raw e credential output) : ∃ (input : Bytes) (salt : Vector UInt8 32) (nonce : Vector UInt8 12),
      Browser.wrap raw.toList context credential input output salt nonce = .ok e := by
  have hraw : raw.toList.length = 32 := Vector.length_toList
  induction h with
  | created h =>
    unfold Browser.createOwnerKey at h
    obtain ⟨e', he, h⟩ := bind_eq_ok.mp h
    obtain ⟨key, -, h⟩ := bind_eq_ok.mp h
    cases h
    exact ⟨_, _, _, he⟩
  | rewrapped _ h ih =>
    obtain ⟨input, salt, nonce, hwrap⟩ := ih
    unfold Browser.rewrapOwnerKey at h
    obtain ⟨c, hcontext, hrest⟩ := bind_eq_ok.mp h
    obtain rfl := ownerKeyContext_eq_ok hcontext
    have hrest := (check_bind_eq_ok.mp hrest).2
    rw [(wrap_spec hc hraw hwrap).1, ok_bind] at hrest
    exact ⟨_, _, _, hrest⟩
  | login _ h ih =>
    obtain ⟨input, salt, nonce, hwrap⟩ := ih
    unfold Browser.wrapOwnerKeyForLogin at h
    rw [(wrap_spec hc hraw hwrap).1, ok_bind] at h
    exact ⟨_, _, _, h⟩

end

/-- An envelope as the service reads it. -/
def serverEnvelope (e : OwnerKeyEnvelope) : OwnerKeys.Envelope :=
  { formatVersion := 2, kind := "owner-key", credentialId := e.credentialId, prfInput := e.prfInput, salt := e.salt, nonce := e.nonce,
    wrappedKey := e.wrappedKey }

theorem canonical_encode {bs : Bytes} {min max : Nat} (h : min ≤ bs.length ∧ bs.length ≤ max) :
    @OwnerKeys.canonical Base64.url (Base64url.encode bs) min max = true := by
  have hsize : ¬(Base64url.encode bs).utf8ByteSize > (max * 4 + 2) / 3 := by
    rw [Base64url.size_encode]
    omega
  have hdecode : @Base64.decode64 Base64.url (Base64url.encode bs) = some bs := Base64url.decode_encode bs
  have hencode : @Base64.encode64 Base64.url bs = Base64url.encode bs := rfl
  unfold OwnerKeys.canonical
  simp only [if_neg hsize, hdecode, hencode]
  simp [h]

theorem canonical_sized {bs : Bytes} {n : Nat} (h : bs.length = n) : @OwnerKeys.canonical Base64.url (Base64url.encode bs) n n = true :=
  canonical_encode ⟨h.ge, h.le⟩

/-- The service admits what was wrapped in a browser. -/
theorem valid_serverEnvelope {e : OwnerKeyEnvelope} {credential input salt nonce wrapped : Bytes}
    (h : Canonical e credential input salt nonce wrapped) :
    @OwnerKeys.Envelope.valid Base64.url (serverEnvelope e) (Base64url.encode credential) = true := by
  simp only [OwnerKeys.Envelope.valid, serverEnvelope, h.credentialId.1, h.prfInput.1, h.salt.1, h.nonce.1, h.wrappedKey.1,
    canonical_encode h.credentialId.2, canonical_sized h.prfInput.2, canonical_sized h.salt.2, canonical_sized h.nonce.2,
    canonical_sized h.wrappedKey.2, beq_self_eq_true, Bool.and_self]

section
variable [Primitives]

/-- Whatever the chain of wraps, its last credential opens the root key, and the service admits the envelope. -/
theorem owner_key_held (hc : Correct) {context : OwnerKeyContext} {raw : Vector UInt8 32} {e : OwnerKeyEnvelope} {credential output : Bytes}
    (h : Held context raw e credential output) :
    (∃ key, Browser.openOwnerKey e.json context credential output = .ok key ∧ key.raw = raw.toList ∧ Browser.ownerHandle key = .ok ()) ∧
      @OwnerKeys.Envelope.valid Base64.url (serverEnvelope e) (Base64url.encode credential) = true := by
  have hraw : raw.toList.length = 32 := Vector.length_toList
  obtain ⟨input, salt, nonce, hwrap⟩ := h.wrapped hc
  obtain ⟨hunwrap, wrapped, hcanonical⟩ := wrap_spec hc hraw hwrap
  refine ⟨?_, valid_serverEnvelope hcanonical⟩
  rw [Browser.openOwnerKey, hunwrap, ok_bind, Browser.importOwnerKey, dif_pos hraw]
  exact ⟨_, rfl, rfl, rfl⟩

end

/-! ## A small instance -/

namespace Sample

open SharedName.Sample (context)

def output : Bytes := List.replicate 32 3

def input : Bytes := List.replicate 32 4

/-- A root key that was made for one credential and wrapped for a second one. -/
theorem held : ∃ e, Held context (Vector.replicate 32 5) e [2] output := by
  obtain ⟨⟨first, key⟩, hfirst⟩ := ok_of_isOk (x := Browser.createOwnerKey context [1] input output (Vector.replicate 32 5)
    (Vector.replicate 32 6) (Vector.replicate 12 7)) (by decide +kernel)
  have hheld : Held context (Vector.replicate 32 5) first [1] output := .created hfirst
  have hunwrap := (wrap_spec SharedName.Sample.correct (Vector.length_toList : (Vector.replicate 32 (5 : UInt8)).toList.length = 32)
    (hheld.wrapped SharedName.Sample.correct).choose_spec.choose_spec.choose_spec).1
  obtain ⟨second, hsecond⟩ := ok_of_isOk (x := Browser.wrap (Vector.replicate 32 5).toList context [2] input output
    (Vector.replicate 32 8) (Vector.replicate 12 9)) (by decide +kernel)
  have hrewrap : Browser.rewrapOwnerKey first.json context [1] output [2] input output (Vector.replicate 32 8) (Vector.replicate 12 9) =
      .ok second := by
    have hcontext : Browser.ownerKeyContext context = .ok context := rfl
    rw [Browser.rewrapOwnerKey, hcontext, ok_bind, denyIf, if_neg (by decide), ok_bind, hunwrap, ok_bind]
    exact hsecond
  exact ⟨second, .rewrapped hheld hrewrap⟩

end Sample

/-- The second credential opens the root key that was made for the first. -/
theorem owner_key_held_sample : ∃ e key, Browser.openOwnerKey (OwnerKeyEnvelope.json e) SharedName.Sample.context [2] Sample.output = .ok key ∧
    key.raw = List.replicate 32 5 := by
  obtain ⟨e, he⟩ := Sample.held
  obtain ⟨⟨key, hopen, hraw, -⟩, -⟩ := owner_key_held SharedName.Sample.correct he
  exact ⟨e, key, hopen, hraw⟩

end Mikaki.Vault.OwnerCrypto
