import Mikaki.Lib.Cbor
import Mikaki.Lib.Slices
import Mikaki.Webauthn.Ceremony

/-!
# The layout of authenticator data

What a registration and an assertion take apart is one concatenation, and no
index of theirs is out of range.
-/

namespace Mikaki.Webauthn

open Checks Slices
open Mikaki.Vault (Base64 encode64 decode64)

/-! ## The ceremonies with their indices -/

namespace Indexed

def authHeader (ctx : Context) (bytes : List UInt8) (registration : Bool) : Except (Stop Invalid) (Nat × Bool × Bool) := do
  lift (denyIf (bytes.length < 37 ∨ ctx.maxBytes < bytes.length) .input)
  let hash ← slice bytes 0 32
  lift (denyIf (hash ≠ Sha.sha256 (Text.bytes ctx.rpId)) .rpId)
  let flags ← index bytes 32
  lift (denyIf (flags &&& 1 = 0) .userPresence)
  lift (denyIf (flags &&& 0x22 ≠ 0) .input)
  lift (denyIf (ctx.userVerification = .required ∧ flags &&& 4 = 0) .userVerification)
  lift (denyIf (decide (flags &&& 0x40 ≠ 0) ≠ registration) .input)
  let be : Bool := flags &&& 8 ≠ 0
  let bs : Bool := flags &&& 16 ≠ 0
  lift (denyIf (bs = true ∧ be = false) .backup)
  let counter ← slice bytes 33 37
  return (counter.foldl (fun n b => 256 * n + b.toNat) 0, be, bs)

section
variable [Formats]

def extensions (bytes : List UInt8) (offset depth : Nat) : Except (Stop Invalid) Unit := do
  let flags ← index bytes 32
  if flags &&& 0x80 = 0 then lift (denyIf (offset ≠ bytes.length) .extensions)
  else if bytes.length < offset then fail .extensions
  else
    match Formats.cbor (bytes.drop offset) depth with
    | .ok (.map entries, used) =>
      lift (denyIf ((entries.all fun e => e.1.isText) = false ∨ offset + used ≠ bytes.length) .extensions)
    | _ => fail .extensions

def register (ctx : Context) (response : Registration) : Except (Stop Invalid) VerifiedRegistration := do
  lift ctx.validate
  let client ← lift (checkClientData ctx response.clientData "webauthn.create")
  let bytes ← lift (decode response.attestation ctx.maxBytes)
  let (object, used) ← lift (Formats.cbor bytes ctx.maxDepth)
  lift (denyIf (used ≠ bytes.length) .input)
  let data ← lift (authData object)
  let (counter, backupEligible, backupState) ← authHeader ctx data true
  lift (denyIf (data.length < 55) .input)
  let high ← index data 53
  let low ← index data 54
  let idLen := high.toNat * 256 + low.toNat
  lift (denyIf (idLen = 0 ∨ 1023 < idLen) .input)
  lift (denyIf (data.length < 55 + idLen) .input)
  let id := (data.drop 55).take idLen
  let responseId ← lift (decode response.id 1023)
  lift (denyIf (responseId ≠ id) .credential)
  let (key, used) ← lift (Formats.cbor (data.drop (55 + idLen)) ctx.maxDepth)
  let parsedKey ← lift (Formats.publicKey key)
  lift (denyIf (parsedKey.algorithm ∉ ctx.algorithms) .algorithm)
  let publicKey ← slice data (55 + idLen) (55 + idLen + used)
  extensions data (55 + idLen + used) ctx.maxDepth
  lift (Formats.attestation ctx object data client parsedKey id)
  -- the AAGUID, which the evidence of the attestation names
  let _ ← slice data 37 53
  let flags ← index data 32
  return { id := response.id, publicKey := encode64 publicKey, counter, backupEligible, backupState,
           userVerified := flags &&& 4 ≠ 0 }

def authenticate (ctx : Context) (stored : StoredCredential) (response : Assertion) :
    Except (Stop Invalid) VerifiedAssertion := do
  lift ctx.validate
  lift (denyIf (response.id ≠ stored.id) .credential)
  let id ← lift (decode response.id 1023)
  lift (denyIf (id = []) .input)
  let handle ← lift (decode stored.userHandle 64)
  lift (denyIf (handle = []) .input)
  lift (identify ctx stored response)
  let client ← lift (checkClientData ctx response.clientData "webauthn.get")
  let data ← lift (decode response.authenticatorData ctx.maxBytes)
  let (counter, be, backupState) ← authHeader ctx data false
  extensions data 37 ctx.maxDepth
  lift (denyIf (be ≠ stored.backupEligible) .backup)
  lift (denyIf (¬(be = true ∨ (counter = 0 ∧ stored.counter = 0) ∨ stored.counter < counter)) .counter)
  let encodedKey ← lift (decode stored.publicKey 2048)
  let (key, used) ← lift (Formats.cbor encodedKey ctx.maxDepth)
  lift (denyIf (used ≠ encodedKey.length) .input)
  let key ← lift (Formats.publicKey key)
  lift (denyIf (key.algorithm ∉ ctx.algorithms) .algorithm)
  let signature ← lift (decode response.signature 512)
  let signed := data ++ Sha.sha256 client
  lift (Formats.verify key signed signature)
  let flags ← index signed 32
  return { counter, backupState, userVerified := flags &&& 4 ≠ 0 }

end

/-! ## No index is out of range -/

theorem authHeader_eq (ctx : Context) (bytes : List UInt8) (registration : Bool) :
    authHeader ctx bytes registration = lift (Webauthn.authHeader ctx bytes registration) := by
  simp only [authHeader, Webauthn.authHeader, lift_bind]
  refine bind_congr_ok fun _ h => ?_
  have hlen : 37 ≤ bytes.length := by
    have hl := denyIf_eq_ok.mp (lift_eq_ok.mp h)
    omega
  rw [slice_of_le (by omega) (by omega : 32 ≤ bytes.length), index_of_lt 0 (by omega : 32 < bytes.length),
    slice_of_le (by omega) hlen]
  rfl

section
variable [Formats]

theorem extensions_eq {bytes : List UInt8} (h : 37 ≤ bytes.length) (offset depth : Nat) :
    extensions bytes offset depth = lift (Webauthn.extensions bytes offset depth) := by
  rw [extensions, Webauthn.extensions, index_of_lt 0 (by omega), ok_bind]
  by_cases hflag : bytes.getD 32 0 &&& 0x80 = 0
  · rw [if_pos hflag, if_pos hflag]
  · rw [if_neg hflag, if_neg hflag]
    by_cases hoff : bytes.length < offset
    · rw [if_pos hoff, if_pos hoff]
      rfl
    · rw [if_neg hoff, if_neg hoff]
      cases hv : Formats.cbor (bytes.drop offset) depth with
      | error e => rfl
      | ok r =>
        obtain ⟨v, used⟩ := r
        cases v <;> rfl

omit [Formats] in
theorem length_of_authHeader {ctx : Context} {bytes : List UInt8} {registration : Bool} {r : Nat × Bool × Bool}
    (h : Webauthn.authHeader ctx bytes registration = .ok r) : 37 ≤ bytes.length := by
  simp only [Webauthn.authHeader, check_bind_eq_ok, denyIf_eq_ok] at h
  have hlen := h.1
  omega

theorem register_eq (hcbor : ∀ bytes depth v used, Formats.cbor bytes depth = .ok (v, used) → 0 < used ∧ used ≤ bytes.length)
    (ctx : Context) (response : Registration) : register ctx response = lift (Webauthn.register ctx response) := by
  simp only [register, Webauthn.register, lift_bind, authHeader_eq]
  refine bind_congr_ok fun _ _ => bind_congr_ok fun client _ => bind_congr_ok fun bytes _ => bind_congr_ok fun r _ => ?_
  obtain ⟨object, used⟩ := r
  dsimp only
  refine bind_congr_ok fun _ _ => bind_congr_ok fun data _ => bind_congr_ok fun r _ => ?_
  obtain ⟨counter, be, bs⟩ := r
  dsimp only
  refine bind_congr_ok fun _ h => ?_
  have hlen : 55 ≤ data.length := by
    have hl := denyIf_eq_ok.mp (lift_eq_ok.mp h)
    omega
  rw [index_of_lt 0 (by omega : 53 < data.length), index_of_lt 0 (by omega : 54 < data.length), ok_bind, ok_bind]
  refine bind_congr_ok fun _ _ => bind_congr_ok fun _ h => ?_
  have hid := denyIf_eq_ok.mp (lift_eq_ok.mp h)
  refine bind_congr_ok fun _ _ => bind_congr_ok fun _ _ => bind_congr_ok fun r hkey => ?_
  obtain ⟨key, used⟩ := r
  have hused := (hcbor _ _ _ _ (lift_eq_ok.mp hkey)).2
  rw [List.length_drop] at hused
  dsimp only
  refine bind_congr_ok fun parsedKey _ => bind_congr_ok fun _ _ => ?_
  rw [slice_of_le (by omega) (by omega), ok_bind, extensions_eq (by omega), Nat.add_sub_cancel_left]
  refine bind_congr_ok fun _ _ => bind_congr_ok fun _ _ => ?_
  rw [slice_of_le (by omega) (by omega), index_of_lt 0 (by omega : 32 < data.length)]
  rfl

theorem authenticate_eq (ctx : Context) (stored : StoredCredential) (response : Assertion) :
    authenticate ctx stored response = lift (Webauthn.authenticate ctx stored response) := by
  simp only [authenticate, Webauthn.authenticate, lift_bind, authHeader_eq]
  refine bind_congr_ok fun _ _ => bind_congr_ok fun _ _ => bind_congr_ok fun _ _ => bind_congr_ok fun _ _ => ?_
  refine bind_congr_ok fun _ _ => bind_congr_ok fun _ _ => bind_congr_ok fun _ _ => bind_congr_ok fun client _ => ?_
  refine bind_congr_ok fun data _ => bind_congr_ok fun r h => ?_
  have hlen := length_of_authHeader (lift_eq_ok.mp h)
  obtain ⟨counter, be, bs⟩ := r
  dsimp only
  rw [extensions_eq hlen]
  refine bind_congr_ok fun _ _ => bind_congr_ok fun _ _ => bind_congr_ok fun _ _ => bind_congr_ok fun encodedKey _ => ?_
  refine bind_congr_ok fun r _ => ?_
  obtain ⟨key, used⟩ := r
  dsimp only
  refine bind_congr_ok fun _ _ => bind_congr_ok fun key _ => bind_congr_ok fun _ _ => bind_congr_ok fun signature _ => ?_
  refine bind_congr_ok fun _ _ => ?_
  have h32 : 32 < (data ++ Sha.sha256 client).length := by
    rw [List.length_append]
    omega
  rw [index_of_lt 0 h32, ok_bind, List.getD_append _ _ _ _ (by omega)]
  rfl

end

end Indexed

/-! ## The layout -/

/-- The attested credential of a registration. -/
structure Attested where
  aaguid : List UInt8
  id : List UInt8
  key : List UInt8
  aaguid_length : aaguid.length = 16
  id_length : 0 < id.length ∧ id.length ≤ 1023
  key_length : 0 < key.length

def Attested.bytes (self : Attested) : List UInt8 :=
  self.aaguid ++ [UInt8.ofNat (self.id.length / 256), UInt8.ofNat (self.id.length % 256)] ++ self.id ++ self.key

structure AuthenticatorData where
  rpIdHash : List UInt8
  flags : UInt8
  counter : List UInt8
  attested : Option Attested
  extensions : List UInt8
  rpIdHash_length : rpIdHash.length = 32
  counter_length : counter.length = 4
  attested_iff : attested ≠ none ↔ flags &&& 0x40 ≠ 0
  extensions_iff : extensions ≠ [] ↔ flags &&& 0x80 ≠ 0

namespace AuthenticatorData

def bytes (self : AuthenticatorData) : List UInt8 :=
  self.rpIdHash ++ [self.flags] ++ self.counter ++ (self.attested.map Attested.bytes).getD [] ++ self.extensions

/-- The extensions are one value, which ends with them. -/
def ExtensionsRead [Formats] (self : AuthenticatorData) (depth : Nat) : Prop :=
  self.extensions ≠ [] → ∃ entries, Formats.cbor self.extensions depth = .ok (.map entries, self.extensions.length)

end AuthenticatorData

/-- What is behind `a` up to `b`, and what is behind `b`. -/
theorem drop_split {α : Type} (l : List α) {a b : Nat} (h : a ≤ b) : l.drop a = (l.drop a).take (b - a) ++ l.drop b := by
  conv_lhs => rw [← List.take_append_drop (b - a) (l.drop a), List.drop_drop, Nat.add_sub_cancel' h]

theorem take_one {l : List UInt8} {i : Nat} (h : i < l.length) : (l.drop i).take 1 = [l.getD i 0] := by
  rw [List.drop_eq_getElem_cons h, List.getD_eq_getElem?_getD, List.getElem?_eq_getElem h]
  rfl

theorem authHeader_split {ctx : Context} {bytes : List UInt8} {registration be bs : Bool} {counter : Nat}
    (h : authHeader ctx bytes registration = .ok (counter, be, bs)) :
    37 ≤ bytes.length ∧ bytes.take 32 = Sha.sha256 (Text.bytes ctx.rpId) ∧
      (bytes.getD 32 0 &&& 0x40 ≠ 0 ↔ registration = true) ∧ header bytes = (counter, be, bs) := by
  have hheader := (authHeader_ok h).1
  have hlen := Indexed.length_of_authHeader h
  simp only [authHeader, check_bind_eq_ok, denyIf_eq_ok, not_not] at h
  obtain ⟨-, hhash, -, -, -, hflag, -⟩ := h
  refine ⟨hlen, hhash, ?_, hheader⟩
  rw [← hflag, decide_eq_true_eq]

/-- Two bytes that hold a length. -/
theorem length_bytes {high low : UInt8} {n : Nat} (h : n = high.toNat * 256 + low.toNat) :
    [UInt8.ofNat (n / 256), UInt8.ofNat (n % 256)] = [high, low] := by
  have hlow := low.toNat_lt
  rw [show n / 256 = high.toNat by omega, show n % 256 = low.toNat by omega, UInt8.ofNat_toNat, UInt8.ofNat_toNat]

section
variable [Formats]

theorem extensions_ok {bytes : List UInt8} {offset depth : Nat}
    (hcbor : ∀ bytes depth v used, Formats.cbor bytes depth = .ok (v, used) → 0 < used ∧ used ≤ bytes.length)
    (h : extensions bytes offset depth = .ok ()) :
    offset ≤ bytes.length ∧ (bytes.drop offset ≠ [] ↔ bytes.getD 32 0 &&& 0x80 ≠ 0) ∧
      (bytes.drop offset ≠ [] → ∃ entries, Formats.cbor (bytes.drop offset) depth = .ok (.map entries, (bytes.drop offset).length)) := by
  rw [extensions] at h
  by_cases hflag : bytes.getD 32 0 &&& 0x80 = 0
  · rw [if_pos hflag, denyIf_eq_ok, not_not] at h
    have hnil : bytes.drop offset = [] := List.drop_eq_nil_of_le (Nat.le_of_eq h.symm)
    exact ⟨Nat.le_of_eq h, iff_of_false (not_not.mpr hnil) (not_not.mpr hflag), fun hne => absurd hnil hne⟩
  · rw [if_neg hflag] at h
    by_cases hoff : bytes.length < offset
    · rw [if_pos hoff] at h
      cases h
    · rw [if_neg hoff] at h
      split at h
      · next entries used hv =>
        rw [denyIf_eq_ok, not_or, not_not] at h
        have hused := hcbor _ _ _ _ hv
        have hlen : used = (bytes.drop offset).length := by
          rw [List.length_drop]
          omega
        have hne : bytes.drop offset ≠ [] := List.ne_nil_of_length_pos (by omega)
        exact ⟨by omega, iff_of_true hne hflag, fun _ => ⟨entries, hlen ▸ hv⟩⟩
      · cases h

/-- The authenticator data in an attestation object. -/
def registrationData (ctx : Context) (response : Registration) : Except Invalid (List UInt8) := do
  let bytes ← decode response.attestation ctx.maxBytes
  let (object, used) ← Formats.cbor bytes ctx.maxDepth
  denyIf (used ≠ bytes.length) .input
  authData object

/-- What a registration takes from the data, part by part. -/
structure RegistrationSplit (ctx : Context) (response : Registration) (proof : VerifiedRegistration) (data : AuthenticatorData)
    (attested : Attested) : Prop where
  data_eq : registrationData ctx response = .ok data.bytes
  attested_eq : data.attested = some attested
  rpIdHash : data.rpIdHash = Sha.sha256 (Text.bytes ctx.rpId)
  counter : proof.counter = data.counter.foldl (fun n b => 256 * n + b.toNat) 0
  id : decode64 response.id = some attested.id
  key : ∃ key, Formats.cbor (attested.key ++ data.extensions) ctx.maxDepth = .ok (key, attested.key.length)
  publicKey : proof.publicKey = encode64 attested.key
  extensions : data.ExtensionsRead ctx.maxDepth

structure AssertionSplit (ctx : Context) (response : Assertion) (proof : VerifiedAssertion) (data : AuthenticatorData) : Prop where
  data_eq : decode64 response.authenticatorData = some data.bytes
  attested_eq : data.attested = none
  rpIdHash : data.rpIdHash = Sha.sha256 (Text.bytes ctx.rpId)
  counter : proof.counter = data.counter.foldl (fun n b => 256 * n + b.toNat) 0
  extensions : data.ExtensionsRead ctx.maxDepth

theorem register_split {ctx : Context} {response : Registration} {proof : VerifiedRegistration}
    (hcbor : ∀ bytes depth v used, Formats.cbor bytes depth = .ok (v, used) → 0 < used ∧ used ≤ bytes.length)
    (h : register ctx response = .ok proof) : ∃ data attested, RegistrationSplit ctx response proof data attested := by
  simp only [register, bind_eq_ok, exists_unit, denyIf_eq_ok, not_not, pure_eq_ok] at h
  obtain ⟨-, client, -, bytes, hbytes, ⟨object, total⟩, hobject, htotal, data, hdata, ⟨counter, be, bs⟩, hheader, h55, hid, hfits, id,
    hdecoded, rfl, ⟨key, used⟩, hkey, parsedKey, -, -, hext, -, rfl⟩ := h
  obtain ⟨h37, hhash, hflag, hcounter⟩ := authHeader_split hheader
  obtain ⟨hend, hflag', hread⟩ := extensions_ok hcbor hext
  have hused := hcbor _ _ _ _ hkey
  generalize hn : (data.getD 53 0).toNat * 256 + (data.getD 54 0).toNat = n at *
  rw [List.length_drop] at hused
  have hidlen : ((data.drop 55).take n).length = n := by
    rw [List.length_take, List.length_drop]
    omega
  have hkeylen : ((data.drop (55 + n)).take used).length = used := by
    rw [List.length_take, List.length_drop]
    omega
  have hlength : [UInt8.ofNat (n / 256), UInt8.ofNat (n % 256)] = (data.drop 53).take 1 ++ (data.drop 54).take 1 := by
    rw [take_one (by omega), take_one (by omega), length_bytes hn.symm]
    rfl
  let attested : Attested :=
    { aaguid := (data.drop 37).take 16
      id := (data.drop 55).take n
      key := (data.drop (55 + n)).take used
      aaguid_length := by
        rw [List.length_take, List.length_drop]
        omega
      id_length := by omega
      key_length := by omega }
  let split : AuthenticatorData :=
    { rpIdHash := data.take 32
      flags := data.getD 32 0
      counter := (data.drop 33).take 4
      attested := some attested
      extensions := data.drop (55 + n + used)
      rpIdHash_length := by
        rw [List.length_take]
        omega
      counter_length := by
        rw [List.length_take, List.length_drop]
        omega
      attested_iff := iff_of_true (Option.some_ne_none _) (hflag.mpr rfl)
      extensions_iff := hflag' }
  have hsplit : split.bytes = data := by
    have hattested : attested.bytes = (data.drop 37).take 16 ++ ((data.drop 53).take 1 ++ (data.drop 54).take 1) ++
        (data.drop 55).take n ++ (data.drop (55 + n)).take used := by
      rw [← hlength]
      show _ ++ [UInt8.ofNat (attested.id.length / 256), UInt8.ofNat (attested.id.length % 256)] ++ _ ++ _ = _
      rw [show attested.id.length = n from hidlen]
    show data.take 32 ++ [data.getD 32 0] ++ (data.drop 33).take 4 ++ attested.bytes ++ data.drop (55 + n + used) = data
    rw [hattested, ← take_one (by omega : 32 < data.length)]
    have e₁ := drop_split data (by omega : 0 ≤ 32)
    have e₂ := drop_split data (by omega : 32 ≤ 33)
    have e₃ := drop_split data (by omega : 33 ≤ 37)
    have e₄ := drop_split data (by omega : 37 ≤ 53)
    have e₅ := drop_split data (by omega : 53 ≤ 54)
    have e₆ := drop_split data (by omega : 54 ≤ 55)
    have e₇ := drop_split data (by omega : 55 ≤ 55 + n)
    have e₈ := drop_split data (by omega : 55 + n ≤ 55 + n + used)
    rw [Nat.add_sub_cancel_left] at e₇ e₈
    simp only [List.append_assoc]
    rw [← e₈, ← e₇, ← e₆, ← e₅, ← e₄, ← e₃, ← e₂]
    exact e₁.symm
  refine ⟨split, attested, ?_, rfl, hhash, ?_, decode_eq_ok hdecoded, ⟨key, ?_⟩, rfl, hread⟩
  · rw [hsplit]
    simp only [registrationData, bind_eq_ok, exists_unit, denyIf_eq_ok, not_not]
    exact ⟨bytes, hbytes, (object, total), hobject, htotal, hdata⟩
  · exact (congrArg Prod.fst hcounter).symm
  · have hrest := drop_split data (by omega : 55 + n ≤ 55 + n + used)
    rw [Nat.add_sub_cancel_left] at hrest
    show Formats.cbor ((data.drop (55 + n)).take used ++ data.drop (55 + n + used)) _ = .ok (key, ((data.drop (55 + n)).take used).length)
    rw [← hrest, hkeylen]
    exact hkey

theorem authenticate_split {ctx : Context} {stored : StoredCredential} {response : Assertion} {proof : VerifiedAssertion}
    (hcbor : ∀ bytes depth v used, Formats.cbor bytes depth = .ok (v, used) → 0 < used ∧ used ≤ bytes.length)
    (h : authenticate ctx stored response = .ok proof) : ∃ data, AssertionSplit ctx response proof data := by
  simp only [authenticate, bind_eq_ok, exists_unit, denyIf_eq_ok, pure_eq_ok] at h
  obtain ⟨-, -, _, -, -, _, -, -, -, _, -, data, hdata, ⟨counter, be, bs⟩, hheader, hext, -, -, _, -, _, -, -, _, -, -, _, -, -, rfl⟩ := h
  obtain ⟨h37, hhash, hflag, hcounter⟩ := authHeader_split hheader
  obtain ⟨-, hflag', hread⟩ := extensions_ok hcbor hext
  let split : AuthenticatorData :=
    { rpIdHash := data.take 32
      flags := data.getD 32 0
      counter := (data.drop 33).take 4
      attested := none
      extensions := data.drop 37
      rpIdHash_length := by
        rw [List.length_take]
        omega
      counter_length := by
        rw [List.length_take, List.length_drop]
        omega
      attested_iff := iff_of_false (not_not.mpr rfl) (fun hf => Bool.false_ne_true (hflag.mp hf))
      extensions_iff := hflag' }
  have hsplit : split.bytes = data := by
    show data.take 32 ++ [data.getD 32 0] ++ (data.drop 33).take 4 ++ [] ++ data.drop 37 = data
    rw [List.append_nil, ← take_one (by omega : 32 < data.length)]
    have e₁ := drop_split data (by omega : 0 ≤ 32)
    have e₂ := drop_split data (by omega : 32 ≤ 33)
    have e₃ := drop_split data (by omega : 33 ≤ 37)
    simp only [List.append_assoc]
    rw [← e₃, ← e₂]
    exact e₁.symm
  exact ⟨split, (decode_eq_ok hdata).trans (congrArg some hsplit.symm), rfl, hhash, (congrArg Prod.fst hcounter).symm, hread⟩

/-- Every part of the data is read once, and nothing is read beside it. -/
theorem authenticator_data
    (hcbor : ∀ bytes depth v used, Formats.cbor bytes depth = .ok (v, used) → 0 < used ∧ used ≤ bytes.length) :
    (∀ ctx response proof, register ctx response = .ok proof → ∃ data attested, RegistrationSplit ctx response proof data attested) ∧
      (∀ ctx stored response proof, authenticate ctx stored response = .ok proof → ∃ data, AssertionSplit ctx response proof data) ∧
      (∀ ctx response, Indexed.register ctx response = lift (register ctx response)) ∧
      ∀ ctx stored response, Indexed.authenticate ctx stored response = lift (authenticate ctx stored response) :=
  ⟨fun _ _ _ h => register_split hcbor h, fun _ _ _ _ h => authenticate_split hcbor h, fun ctx response => Indexed.register_eq hcbor ctx response,
    fun ctx stored response => Indexed.authenticate_eq ctx stored response⟩

end

/-! ## A registration -/

namespace Sample

def leaf : Cbor.Value → Value
  | .text s => .text s
  | .bytes b => .bytes b
  | _ => .other

def value : Cbor.Value → Value
  | .map ms => .map (ms.map fun m => (leaf m.1, leaf m.2))
  | v => leaf v

def json : String := "\x7b\"type\":\"webauthn.create\",\"challenge\":\"AAAAAAAAAAAAAAAAAAAAAAAAAAAAAAAAAAAAAAAAAAA\",\"origin\":\"https://localhost\"\x7d"

def challenge : String := "AAAAAAAAAAAAAAAAAAAAAAAAAAAAAAAAAAAAAAAAAAA"

/-- Base64url and CBOR as they are; the client data is the one text, and the key a point on its curve. -/
@[reducible] def formats : Formats where
  toBase64 := Base64.url
  clientData _ _ bytes :=
    if bytes = Text.bytes json then .ok ⟨"webauthn.create", challenge, "https://localhost", false, none, none⟩ else .error .input
  cbor bytes depth :=
    match Cbor.read depth bytes with
    | some (v, rest) => if rest.length < bytes.length then .ok (value v, bytes.length - rest.length) else .error .input
    | none => .error .input
  publicKey _ := .ok ⟨-7, []⟩
  verify _ _ _ := .ok ()
  attestation _ _ _ _ _ _ := .ok ()

theorem cbor_used (bytes : List UInt8) (depth : Nat) (v : Value) (used : Nat) (h : formats.cbor bytes depth = .ok (v, used)) :
    0 < used ∧ used ≤ bytes.length := by
  unfold Formats.cbor formats at h
  dsimp only at h
  split at h
  · split at h
    · next hlt =>
      cases h
      omega
    · cases h
  · cases h

/-- The generator of P-256. -/
def coseKey : Cbor.Value :=
  .map [(.int 1, .int 2), (.int 3, .int (-7)), (.int (-1), .int 1),
    (.int (-2), .bytes (Cbor.bigEndian 32 0x6b17d1f2e12c4247f8bce6e563a440f277037d812deb33a0f4a13945d898c296)),
    (.int (-3), .bytes (Cbor.bigEndian 32 0x4fe342e2fe1a7f9b8ee7eb4a7c0f9e162bce33576b315ececbb6406837bf51f5))]

def data : List UInt8 :=
  Sha.sha256 (Text.bytes "localhost") ++ [0x45, 0, 0, 0, 7] ++ List.replicate 16 0 ++ [0, 2, 8, 9] ++ coseKey.encode

def object : Cbor.Value := .map [(.text "fmt", .text "none"), (.text "attStmt", .map []), (.text "authData", .bytes data)]

def context : Context := ⟨challenge, "https://localhost", "localhost", 4096, 8, .required, .discoverable, [-7]⟩

def registration : Registration := ⟨Base64url.encode [8, 9], Base64url.encode (Text.bytes json), Base64url.encode object.encode⟩

end Sample

/-- A registration with an id of two bytes and no extensions. -/
theorem authenticator_data_registration :
    let _ := Sample.formats
    ∃ proof data attested, register Sample.context Sample.registration = .ok proof ∧
      RegistrationSplit Sample.context Sample.registration proof data attested := by
  intro _
  have hok : (register Sample.context Sample.registration).isOk = true := by decide +kernel
  obtain ⟨proof, hproof⟩ := ok_of_isOk hok
  obtain ⟨data, attested, hsplit⟩ := (authenticator_data Sample.cbor_used).1 _ _ _ hproof
  exact ⟨proof, data, attested, hproof, hsplit⟩

end Mikaki.Webauthn
