import Mikaki.Vault.OwnerCryptoSound
import Mikaki.Lib.JsonSound

/-!
# Records of an owner are kept

A record is sealed once and wrapped again for each next key of its owner.
Whatever the chain of rotations, the last key opens the text that was sealed
first, under the fields of the record and under no others.
-/

namespace Mikaki.Vault.OwnerCrypto

open Checks
open Browser (Bytes Primitives encrypt decrypt OwnerKeyContext OwnerRecordContext OwnerRecord CryptoKey orThrow)
open Service (RecordAuthority RecordSource)
open SharedName

/-! ## Numbers as texts -/

theorem toString_inj {m n : Nat} (h : toString m = toString n) : m = n := by
  have hparse : Json.parse (toString m) = some (.num m) := Json.parse_render (.num m)
  rw [h] at hparse
  have hsame := (Json.parse_render (.num n)).symm.trans hparse
  cases hsame
  rfl

theorem bytes_toString_inj {m n : Nat} (h : Text.bytes (toString m) = Text.bytes (toString n)) : m = n := toString_inj (Text.bytes_inj h)

/-! ## Handles -/

theorem length_of_handle {key : CryptoKey} (h : Browser.ownerHandle key = .ok ()) : key.raw.length = 32 := by
  unfold Browser.ownerHandle at h
  rw [denyIf_eq_ok] at h
  have hlength : key.length = some 256 := by
    by_contra hne
    exact h (.inr (.inr (.inr (.inl hne))))
  have hsized := key.sized 256 hlength
  omega

theorem parseOwnerRecord_json (record : OwnerRecord) : Browser.parseOwnerRecord record.json = .ok record := by
  obtain ⟨members, hobject, h1, h2, h3⟩ : ∃ members, Browser.exact record.json ["format_version", "ciphertext", "key_envelope"] = .ok members ∧
      members "format_version" = .num 2 ∧ members "ciphertext" = .str record.ciphertext ∧ members "key_envelope" = .str record.keyEnvelope :=
    ⟨_, exact_obj rfl (by simp [List.lookup]), rfl, rfl, rfl⟩
  rw [Browser.parseOwnerRecord, hobject, ok_bind, h1, h2, h3]
  rfl

/-! ## Contexts of a record -/

section
variable [Primitives]

theorem contextFields_eq {context : OwnerKeyContext} (h : Browser.ownerKeyContext context = .ok context) :
    Browser.contextFields context = .ok ["2", context.origin, context.ownerId, context.vaultId, toString context.keyGeneration] := by
  rw [Browser.contextFields, h]
  rfl

/-- What binds a record's key. -/
theorem recordAad_key {context : OwnerKeyContext} {item : OwnerRecordContext} {aad : Bytes}
    (h : Browser.recordAad "mikaki-vault-record-key" context item = .ok aad) :
    Browser.fields ["mikaki-vault-record-key", "2", context.origin, context.ownerId, context.vaultId, toString context.keyGeneration,
      item.collectionId, item.recordId, item.kind, toString item.revision] = .ok aad := by
  obtain ⟨hcontext, hitem⟩ := recordAad_eq_ok h
  rw [Browser.recordAad, hitem, ok_bind, hcontext, ok_bind, if_neg (by decide), contextFields_eq hcontext, ok_bind] at h
  exact h

/-- The context of a record's key determines the fields of the owner and of the record. -/
theorem recordAad_key_inj {context context' : OwnerKeyContext} {item item' : OwnerRecordContext} {aad : Bytes}
    (h : Browser.recordAad "mikaki-vault-record-key" context item = .ok aad)
    (h' : Browser.recordAad "mikaki-vault-record-key" context' item' = .ok aad) : context' = context ∧ item' = item := by
  have hparts := context_inj (prefixAll_iff.mp (recordAad_key h')) (prefixAll_iff.mp (recordAad_key h)) rfl
  simp only [List.map_cons, List.map_nil, List.cons.injEq, and_true, true_and] at hparts
  obtain ⟨horigin, howner, hvault, hgeneration, hcollection, hrecord, hkind, hrevision⟩ := hparts
  cases context
  cases context'
  cases item
  cases item'
  simp only [OwnerKeyContext.mk.injEq, OwnerRecordContext.mk.injEq]
  exact ⟨⟨Text.bytes_inj horigin, Text.bytes_inj howner, Text.bytes_inj hvault, bytes_toString_inj hgeneration⟩,
    Text.bytes_inj hcollection, Text.bytes_inj hrecord, Text.bytes_inj hkind, bytes_toString_inj hrevision⟩

/-- The content of a record is bound to no generation of the owner's key. -/
theorem recordAad_content {context context' : OwnerKeyContext} {item : OwnerRecordContext} (horigin : context.origin = context'.origin)
    (howner : context.ownerId = context'.ownerId) (hvault : context.vaultId = context'.vaultId)
    (hcontext : Browser.ownerKeyContext context = .ok context) (hcontext' : Browser.ownerKeyContext context' = .ok context') :
    Browser.recordAad "mikaki-vault-record-content" context item = Browser.recordAad "mikaki-vault-record-content" context' item := by
  rw [Browser.recordAad, Browser.recordAad, hcontext, hcontext']
  simp only [ok_bind, if_true, horigin, howner, hvault]

/-! ## A record that is stored -/

/-- What holds of a record from its sealing on. -/
structure Stored (plaintext : Bytes) (raw : Vector UInt8 32) (record : OwnerRecord) (key : CryptoKey) (context : OwnerKeyContext)
    (item : OwnerRecordContext) : Prop where
  handle : Browser.ownerHandle key = .ok ()
  content : Content raw plaintext context item record.ciphertext
  wrapped : ∃ (nonce : Vector UInt8 12) (aad : Bytes), Browser.recordAad "mikaki-vault-record-key" context item = .ok aad ∧
    record.keyEnvelope = Base64url.encode (2 :: nonce.toList ++ encrypt key.raw nonce.toList aad raw.toList)

/-- What is encrypted under a record's fields is read back from its bytes. -/
theorem recordKey_wrapped (hc : Correct) {key : CryptoKey} (hkey : key.raw.length = 32) {raw : Vector UInt8 32} {nonce : Vector UInt8 12}
    {context : OwnerKeyContext} {item : OwnerRecordContext} {aad : Bytes}
    (haad : Browser.recordAad "mikaki-vault-record-key" context item = .ok aad) :
    Browser.recordKey (2 :: nonce.toList ++ encrypt key.raw nonce.toList aad raw.toList) key context item = .ok raw.toList := by
  obtain ⟨-, hnonce, hsealed, -⟩ := versioned_parts nonce (encrypt key.raw nonce.toList aad raw.toList)
  have hdecrypt := (hc.cipher aad hkey (Vector.length_toList : nonce.toList.length = 12)
    (show raw.toList.length < 2 ^ 32 by rw [Vector.length_toList]; decide)).2
  rw [Browser.recordKey, haad, ok_bind, hnonce, hsealed, hdecrypt]
  rfl

/-- The bytes of a stored record: its body and its key envelope. -/
theorem Stored.parts (hc : Correct) {plaintext : Bytes} {raw : Vector UInt8 32} {record : OwnerRecord} {key : CryptoKey}
    {context : OwnerKeyContext} {item : OwnerRecordContext} (h : Stored plaintext raw record key context item) :
    (∃ body, record.ciphertext = Base64url.encode body ∧ body.length = plaintext.length + 29 ∧ body.head? = some 2 ∧
      ∃ aad, Browser.recordAad "mikaki-vault-record-content" context item = .ok aad ∧
        decrypt raw.toList (Service.slice body 1 13) aad (body.drop 13) = some plaintext) ∧
    ∃ envelope, record.keyEnvelope = Base64url.encode envelope ∧ envelope.length = 61 ∧ envelope.head? = some 2 ∧
      Browser.recordKey envelope key context item = .ok raw.toList := by
  obtain ⟨nonce, content, hcontent, hcipher⟩ := h.content.written
  obtain ⟨wrapNonce, keyAad, hkeyAad, hkeyText⟩ := h.wrapped
  have hkey := length_of_handle h.handle
  obtain ⟨hlen, hdecrypt⟩ := hc.cipher content (Vector.length_toList : raw.toList.length = 32)
    (Vector.length_toList : nonce.toList.length = 12) h.content.length_lt
  have hkeyLen := (hc.cipher keyAad hkey (Vector.length_toList : wrapNonce.toList.length = 12)
    (show raw.toList.length < 2 ^ 32 by rw [Vector.length_toList]; decide)).1
  obtain ⟨hhead, hnonce, hsealed, hbody⟩ := versioned_parts nonce (encrypt raw.toList nonce.toList content plaintext)
  obtain ⟨hkeyHead, -, -, henvelope⟩ := versioned_parts wrapNonce (encrypt key.raw wrapNonce.toList keyAad raw.toList)
  refine ⟨⟨_, hcipher, ?_, hhead, content, hcontent, ?_⟩, _, hkeyText, ?_, hkeyHead, recordKey_wrapped hc hkey hkeyAad⟩
  · rw [hbody, hlen]
    omega
  · rw [hnonce, hsealed, hdecrypt]
  · rw [henvelope, hkeyLen, Vector.length_toList]

/-- A stored record is opened as it was sealed. -/
theorem Stored.opens (hc : Correct) {plaintext : Bytes} {raw : Vector UInt8 32} {record : OwnerRecord} {key : CryptoKey}
    {context : OwnerKeyContext} {item : OwnerRecordContext} (h : Stored plaintext raw record key context item) :
    Browser.openOwnerRecord record.json key context item = .ok plaintext := by
  obtain ⟨⟨body, hcipher, hbody, hhead, aad, haad, hplain⟩, envelope, hkeyText, henvelope, hkeyHead, hraw⟩ := h.parts hc
  have hfits := h.content.fits
  have hmin : 29 ≤ Browser.recordMaxBytes item := by
    unfold Browser.recordMaxBytes
    split <;> decide
  have hdecode : Browser.decode record.ciphertext 29 (Browser.recordMaxBytes item) = .ok body := by
    rw [hcipher]
    exact decode_encode (by omega)
  have hversions : ¬(body.head? ≠ some 2 ∨ envelope.head? ≠ some 2) := by simp [hhead, hkeyHead]
  rw [Browser.openOwnerRecord, h.handle, ok_bind, h.content.admitted, ok_bind, h.content.named, ok_bind, parseOwnerRecord_json, ok_bind,
    hdecode, ok_bind, decode_fixed ⟨hkeyText, henvelope⟩, ok_bind, denyIf, if_neg hversions, ok_bind, hraw, ok_bind, denyIf,
    if_neg (not_not.mpr Vector.length_toList), ok_bind, haad, ok_bind, hplain]
  rfl

/-- A stored record is opened under its own fields only. -/
theorem Stored.binds (hc : Correct) {plaintext : Bytes} {raw : Vector UInt8 32} {record : OwnerRecord} {key : CryptoKey}
    {context context' : OwnerKeyContext} {item item' : OwnerRecordContext} (h : Stored plaintext raw record key context item) {out : Bytes}
    (hopen : Browser.openOwnerRecord record.json key context' item' = .ok out)
    (hforge : ∀ aad aad', Browser.recordAad "mikaki-vault-record-key" context item = .ok aad →
      Browser.recordAad "mikaki-vault-record-key" context' item' = .ok aad' → Unforged aad aad') :
    context' = context ∧ item' = item ∧ out = plaintext := by
  obtain ⟨wrapNonce, keyAad, hkeyAad, hkeyText⟩ := h.wrapped
  have hkey := length_of_handle h.handle
  have hkeyLen := (hc.cipher keyAad hkey (Vector.length_toList : wrapNonce.toList.length = 12)
    (show raw.toList.length < 2 ^ 32 by rw [Vector.length_toList]; decide)).1
  obtain ⟨-, hnonce, hsealed, henvelope⟩ := versioned_parts wrapNonce (encrypt key.raw wrapNonce.toList keyAad raw.toList)
  have hlength : (2 :: wrapNonce.toList ++ encrypt key.raw wrapNonce.toList keyAad raw.toList).length = 61 := by
    rw [henvelope, hkeyLen, Vector.length_toList]
  have hsame : context' = context ∧ item' = item := by
    unfold Browser.openOwnerRecord at hopen
    rw [h.handle, ok_bind] at hopen
    obtain ⟨c, hcontext, hrest⟩ := bind_eq_ok.mp hopen
    obtain rfl := ownerKeyContext_eq_ok hcontext
    obtain ⟨r, hitem, hopened⟩ := bind_eq_ok.mp hrest
    obtain ⟨rfl, -⟩ := recordContext_eq_ok hitem
    rw [parseOwnerRecord_json, ok_bind] at hopened
    obtain ⟨body, -, hopened⟩ := bind_eq_ok.mp hopened
    rw [decode_fixed ⟨hkeyText, hlength⟩, ok_bind] at hopened
    obtain ⟨found, hfound, -⟩ := bind_eq_ok.mp (check_bind_eq_ok.mp hopened).2
    unfold Browser.recordKey at hfound
    obtain ⟨aad', haad', hfound⟩ := bind_eq_ok.mp hfound
    rw [hnonce, hsealed, orThrow_eq_ok] at hfound
    obtain rfl := hforge keyAad aad' hkeyAad haad' _ _ _ _ hfound
    exact recordAad_key_inj hkeyAad haad'
  obtain ⟨rfl, rfl⟩ := hsame
  rw [h.opens hc] at hopen
  cases hopen
  exact ⟨rfl, rfl, rfl⟩

/-! ## Rotations -/

/-- A record that was sealed, behind a chain of rotations of the owner's key. -/
inductive Kept (plaintext : Bytes) (raw : Vector UInt8 32) (item : OwnerRecordContext) : OwnerRecord → CryptoKey → OwnerKeyContext → Prop
  | sealed {record : OwnerRecord} {key : CryptoKey} {context : OwnerKeyContext} {nonce wrapNonce : Vector UInt8 12} :
    Browser.sealOwnerRecord plaintext key context item raw nonce wrapNonce = .ok record → Kept plaintext raw item record key context
  | rotated {record record' : OwnerRecord} {key key' : CryptoKey} {context context' : OwnerKeyContext} {nonce : Vector UInt8 12} :
    Kept plaintext raw item record key context → Browser.rewrapOwnerRecord record key context key' context' item nonce = .ok record' →
    Kept plaintext raw item record' key' context'

/-- A rotation keeps a record stored, with the same body. -/
theorem Stored.rewrapped (hc : Correct) {plaintext : Bytes} {raw : Vector UInt8 32} {record record' : OwnerRecord} {key key' : CryptoKey}
    {context context' : OwnerKeyContext} {item : OwnerRecordContext} {nonce : Vector UInt8 12}
    (h : Stored plaintext raw record key context item)
    (hrewrap : Browser.rewrapOwnerRecord record key context key' context' item nonce = .ok record') :
    Stored plaintext raw record' key' context' item ∧ record'.ciphertext = record.ciphertext := by
  obtain ⟨-, envelope, hkeyText, henvelope, -, hraw⟩ := h.parts hc
  unfold Browser.rewrapOwnerRecord at hrewrap
  rw [h.content.admitted, ok_bind] at hrewrap
  obtain ⟨c, hcontext, hrest⟩ := bind_eq_ok.mp hrewrap
  obtain rfl := ownerKeyContext_eq_ok hcontext
  rw [h.content.named, ok_bind, check_bind_eq_ok, denyIf_eq_ok] at hrest
  obtain ⟨hsame, hrest⟩ := hrest
  obtain ⟨⟨⟩, hhandle, hrest⟩ := bind_eq_ok.mp hrest
  rw [h.opens hc, ok_bind, decode_fixed ⟨hkeyText, henvelope⟩, ok_bind, hraw, ok_bind, check_bind_eq_ok] at hrest
  obtain ⟨aad, haad, hrest⟩ := bind_eq_ok.mp hrest.2
  cases hrest
  simp only [not_or, not_not] at hsame
  obtain ⟨horigin, howner, hvault, -⟩ := hsame
  obtain ⟨contentNonce, content, hcontent, hcipher⟩ := h.content.written
  refine ⟨⟨hhandle, ⟨h.content.fits, hcontext, h.content.named, contentNonce, content, ?_, hcipher⟩, nonce, aad, haad, rfl⟩, rfl⟩
  rw [← recordAad_content horigin howner hvault h.content.admitted hcontext]
  exact hcontent

theorem Kept.stored (hc : Correct) {plaintext : Bytes} {raw : Vector UInt8 32} {item : OwnerRecordContext} {record : OwnerRecord}
    {key : CryptoKey} {context : OwnerKeyContext} (h : Kept plaintext raw item record key context) :
    Stored plaintext raw record key context item := by
  induction h with
  | sealed h =>
    obtain ⟨hhandle, hcontent, aad, haad, htext⟩ := sealOwnerRecord_eq_ok h
    exact ⟨hhandle, hcontent, _, aad, haad, htext⟩
  | rotated _ h ih => exact (ih.rewrapped hc h).1

/-- Whatever the chain of rotations, the last key opens what was sealed, under the fields of the record and under no others. -/
theorem record_kept (hc : Correct) {plaintext : Bytes} {raw : Vector UInt8 32} {item : OwnerRecordContext} {record : OwnerRecord}
    {key : CryptoKey} {context : OwnerKeyContext} (h : Kept plaintext raw item record key context) :
    Browser.openOwnerRecord record.json key context item = .ok plaintext ∧
      ∀ {context' : OwnerKeyContext} {item' : OwnerRecordContext} {out : Bytes},
        Browser.openOwnerRecord record.json key context' item' = .ok out →
        (∀ aad aad', Browser.recordAad "mikaki-vault-record-key" context item = .ok aad →
          Browser.recordAad "mikaki-vault-record-key" context' item' = .ok aad' → Unforged aad aad') →
        context' = context ∧ item' = item ∧ out = plaintext :=
  ⟨(h.stored hc).opens hc, fun hopen hforge => (h.stored hc).binds hc hopen hforge⟩

end

/-! ## A rotated instance -/

namespace Sample

def nextContext : OwnerKeyContext := { SharedName.Sample.context with keyGeneration := 4 }

def nextKey : CryptoKey := { SharedName.Sample.key with raw := List.replicate 32 10, sized := by decide }

/-- A record behind one rotation. -/
theorem rotated : ∃ record, Kept (Text.bytes "Ada") SharedName.Sample.raw SharedName.Sample.item record nextKey nextContext := by
  obtain ⟨first, hfirst⟩ := ok_of_isOk (x := Browser.sealOwnerRecord (Text.bytes "Ada") SharedName.Sample.key SharedName.Sample.context
    SharedName.Sample.item SharedName.Sample.raw (Vector.replicate 12 6) (Vector.replicate 12 7)) (by decide +kernel)
  have hkept : Kept (Text.bytes "Ada") SharedName.Sample.raw SharedName.Sample.item first SharedName.Sample.key SharedName.Sample.context :=
    .sealed hfirst
  have hstored := hkept.stored SharedName.Sample.correct
  obtain ⟨-, envelope, hkeyText, henvelope, -, hraw⟩ := hstored.parts SharedName.Sample.correct
  obtain ⟨aad, haad⟩ := ok_of_isOk (x := Browser.recordAad "mikaki-vault-record-key" nextContext SharedName.Sample.item) (by decide +kernel)
  have hcontext : Browser.ownerKeyContext nextContext = .ok nextContext := rfl
  have hhandle : Browser.ownerHandle nextKey = .ok () := by decide
  have hrewrap : Browser.rewrapOwnerRecord first SharedName.Sample.key SharedName.Sample.context nextKey nextContext SharedName.Sample.item
      (Vector.replicate 12 8) = .ok ⟨first.ciphertext, Base64url.encode (2 :: (Vector.replicate 12 8).toList ++
        encrypt nextKey.raw (Vector.replicate 12 8).toList aad SharedName.Sample.raw.toList)⟩ := by
    rw [Browser.rewrapOwnerRecord, hstored.content.admitted, ok_bind, hcontext, ok_bind, hstored.content.named, ok_bind, denyIf,
      if_neg (by decide), ok_bind, hhandle, ok_bind, hstored.opens SharedName.Sample.correct, ok_bind, decode_fixed ⟨hkeyText, henvelope⟩,
      ok_bind, hraw, ok_bind, denyIf, if_neg (not_not.mpr Vector.length_toList), ok_bind, haad, ok_bind]
    rfl
  exact ⟨_, .rotated hkept hrewrap⟩

end Sample

/-- A name is opened with the key that was rotated to. -/
theorem record_kept_sample : ∃ record, Browser.openOwnerRecord (OwnerRecord.json record) Sample.nextKey Sample.nextContext SharedName.Sample.item =
    .ok (Text.bytes "Ada") := by
  obtain ⟨record, hkept⟩ := Sample.rotated
  exact ⟨record, (record_kept SharedName.Sample.correct hkept).1⟩

section
variable [Primitives]

/-! ## A saved name -/

def sourceItem (source : Browser.VaultRecordSource) : OwnerRecordContext :=
  ⟨source.collectionId, source.recordId, source.kind, source.revision⟩

/-- What is sealed for the service from a stored record is read by it as what was saved. -/
theorem name_delivered (hc : Correct) {plaintext : Bytes} {raw : Vector UInt8 32} {item : OwnerRecordContext} {record : OwnerRecord}
    {key : CryptoKey} {context : OwnerKeyContext} (h : Kept plaintext raw item record key context) {selected selectedAuthority entry : Json.Value}
    {coins frame : Bytes} {recipient : Browser.RecordUserInfoRecipient} {pk : Bytes} {seed : Vector UInt8 64}
    (hrecipient : Browser.validateRecordUserInfoRecipient entry = .ok recipient) (hpk : Base64url.decode recipient.publicKey = some pk)
    (hseed : Primitives.publicKey seed.toList = some pk)
    (hseal : Browser.sealOwnerRecordUserInfoRecipient record key context selected selectedAuthority entry coins = .ok frame)
    (hforge : ∀ source aad aad', Browser.parseVaultRecordSource selected = .ok source →
      Browser.recordAad "mikaki-vault-record-key" context item = .ok aad →
      Browser.recordAad "mikaki-vault-record-key" context (sourceItem source) = .ok aad' → Unforged aad aad') :
    ∃ source authority body name, Browser.parseVaultRecordSource selected = .ok source ∧ RecordOf context item source ∧
      Browser.parseVaultRecordAuthority selectedAuthority = .ok authority ∧ authority.keyGeneration = context.keyGeneration ∧
      Browser.decodeBase64Url record.ciphertext = .ok body ∧ Base64url.encode (Sha.sha256 body) = source.ciphertextSha256 ∧
      Service.openRecordDataKey seed pk recipient.keyId (UInt64.ofNat recipient.generation) frame
        ⟨serviceSource source, serviceAuthority authority, body⟩ = some raw ∧
      Service.decryptRecordName raw (serviceSource source) body = some name ∧ Text.bytes name = plaintext := by
  have hstored := h.stored hc
  obtain ⟨⟨body, hcipher, -, -, -⟩, envelope, hkeyText, henvelope, -, hraw⟩ := hstored.parts hc
  have hbody : Browser.decodeBase64Url record.ciphertext = .ok body := by
    rw [hcipher]
    exact decodeBase64Url_eq_ok.mpr (Base64url.decode_encode _)
  unfold Browser.sealOwnerRecordUserInfoRecipient at hseal
  rw [hstored.content.admitted, ok_bind] at hseal
  obtain ⟨source, hsource, hseal⟩ := bind_eq_ok.mp hseal
  obtain ⟨authority, hauthority, hseal⟩ := bind_eq_ok.mp hseal
  rw [check_bind_eq_ok, denyIf_eq_ok] at hseal
  obtain ⟨hbinding, hseal⟩ := hseal
  simp only [not_or, not_not] at hbinding
  obtain ⟨hname, -, howner, horigin, hvault, hgeneration⟩ := hbinding
  obtain ⟨digest, -, hseal⟩ := bind_eq_ok.mp hseal
  obtain ⟨out, hopen, hrest⟩ := bind_eq_ok.mp (check_bind_eq_ok.mp hseal).2
  -- The record opens under the fields of the source, which are its own.
  obtain ⟨-, hitem, rfl⟩ := hstored.binds hc hopen fun aad aad' h h' => hforge source aad aad' hsource h h'
  have hof : RecordOf context item source :=
    ⟨horigin, howner, hvault, by rw [← hitem], by rw [← hitem], by rw [← hitem], by rw [← hitem]⟩
  obtain ⟨name, hutf8, hrest⟩ := bind_eq_ok.mp hrest
  rw [check_bind_eq_ok, denyIf_eq_ok] at hrest
  obtain ⟨hlimits, hrest⟩ := hrest
  rw [← hitem] at hraw
  rw [decode_fixed ⟨hkeyText, henvelope⟩, ok_bind, hraw, ok_bind] at hrest
  simp only [not_or, Nat.not_lt] at hlimits
  obtain ⟨hne, hunits, hshort⟩ := hlimits
  have hbytes := utf8_eq_some.mp (orThrow_eq_ok.mp hutf8)
  have hnonempty : out ≠ [] := by
    rintro rfl
    exact hne (Text.bytes_inj (hbytes.trans (by decide)))
  have ha := parseVaultRecordSource_eq_ok hsource
  have hs := sealed_of_seal hsource hauthority hbody hrecipient hpk hrest
  obtain ⟨hlen, hkeyId, -⟩ := validate_eq_ok hrecipient hpk
  refine ⟨source, authority, body, name, hsource, hof, hauthority, hgeneration, hbody, hs.stored.digest, ?_, ?_, hbytes⟩
  · rw [hkeyId]
    exact open_sealed hc hs ha (parseVaultRecordAuthority_eq_ok hauthority) hlen hseed
  · exact (decryptRecordName_iff hc hstored.content hbody hof ha hs.isName hs.stored).mpr ⟨hbytes, hnonempty, hshort, hunits⟩

/-- Each saved name within the limits is sealed for a recipient that the service admits. -/
theorem recipient_sealed (hc : Correct) {plaintext : Bytes} {raw : Vector UInt8 32} {record : OwnerRecord} {key : CryptoKey}
    {context : OwnerKeyContext} {source : RecordSource} (h : Stored plaintext raw record key context (sourceItem (browserSource source)))
    (hvalid : source.valid = true) (horigin : source.origin = context.origin) (howner : source.ownerId = context.ownerId)
    (hvault : source.vaultId = context.vaultId) (hshort : source.origin.utf8ByteSize < 2 ^ 16) {authority : RecordAuthority}
    (hauthority : authority.valid = true) (hgeneration : authority.keyGeneration.toNat = context.keyGeneration) {body : Bytes}
    (hcipher : record.ciphertext = Base64url.encode body) (hbody : Body body source.ciphertextSha256) {name : String}
    (hname : Text.bytes name = plaintext) (hne : name ≠ "") (hunits : Service.utf16Count name ≤ 256) (hbytes : plaintext.length ≤ 1024)
    {pk : Bytes} (hpk : pk.length = 1184) {generation revision : Nat} (hg : 1 ≤ generation ∧ generation ≤ Browser.maxSafe)
    (hr : 1 ≤ revision ∧ revision ≤ Browser.maxSafe) {coins enc shared : Bytes} (henc : Browser.encapsulate pk coins = some (enc, shared))
    (hencLen : enc.length = 1088) : ∃ frame, Browser.sealOwnerRecordUserInfoRecipient record key context (sourceJson source)
      (authorityJson authority) (recipientJson pk generation revision) coins = .ok frame := by
  obtain ⟨frame, hframe⟩ := seal_complete hc hvalid hshort hauthority hbody hpk hg hr henc hencLen raw
  refine ⟨frame, ?_⟩
  rw [← hcipher] at hframe
  have hfixed : source.recordId = "name" ∧ source.kind = "name" := by
    simp only [RecordSource.valid, Bool.and_eq_true, beq_iff_eq] at hvalid
    exact ⟨hvalid.1.1.1.2, hvalid.1.1.2⟩
  have hbinding : ¬((browserSource source).recordId ≠ "name" ∨ (browserSource source).kind ≠ "name" ∨
      (browserSource source).ownerId ≠ context.ownerId ∨ (browserSource source).origin ≠ context.origin ∨
      (browserSource source).vaultId ≠ context.vaultId ∨ (browserAuthority authority).keyGeneration ≠ context.keyGeneration) := by
    simp only [not_or, not_not]
    exact ⟨hfixed.1, hfixed.2, howner, horigin, hvault, hgeneration⟩
  have hsame : ¬source.ciphertextSha256 ≠ (browserSource source).ciphertextSha256 := not_not.mpr rfl
  have hdigest : Browser.vaultCiphertextDigest record.ciphertext = .ok source.ciphertextSha256 := by
    rw [hcipher]
    exact vaultCiphertextDigest_encode hbody
  have hutf8 : Text.utf8 plaintext = some name := utf8_eq_some.mpr hname
  have hlimits : ¬(name = "" ∨ Service.utf16Count name > 256 ∨ plaintext.length > 1024) := by
    simp only [not_or, Nat.not_lt]
    exact ⟨hne, hunits, hbytes⟩
  obtain ⟨-, envelope, hkeyText, henvelope, -, hraw⟩ := h.parts hc
  have hopen := h.opens hc
  unfold sourceItem at hopen hraw
  rw [Browser.sealOwnerRecordUserInfoRecipient, h.content.admitted, ok_bind, (valid_sourceJson hfixed.1).mpr hvalid, ok_bind,
    valid_authorityJson.mpr hauthority, ok_bind, denyIf, if_neg hbinding, ok_bind, hdigest, ok_bind, denyIf, if_neg hsame, ok_bind]
  rw [hopen, ok_bind, hutf8, orThrow, ok_bind, denyIf, if_neg hlimits, ok_bind, decode_fixed ⟨hkeyText, henvelope⟩, ok_bind, hraw, ok_bind]
  exact hframe

end

/-- A name that was rotated is sealed for the service, which reads it. -/
theorem name_delivered_sample : ∃ (source : Browser.VaultRecordSource) (raw : Vector UInt8 32) (body : Bytes) (name : String),
    Service.decryptRecordName raw (serviceSource source) body = some name ∧ Text.bytes name = Text.bytes "Ada" := by
  obtain ⟨record, hkept⟩ := Sample.rotated
  have hstored := hkept.stored SharedName.Sample.correct
  obtain ⟨body, hcipher, hlength, hhead, -⟩ := (hstored.parts SharedName.Sample.correct).1
  have hsize : (Text.bytes "Ada").length = 3 := by decide
  have hpk : (SharedName.Sample.publicOf SharedName.Sample.seed.toList).length = 1184 := by
    rw [SharedName.Sample.publicOf, List.length_append, Vector.length_toList, List.length_replicate]
  have hcoins : (List.replicate 32 (8 : UInt8)).length = 32 := List.length_replicate
  have hpadding : SharedName.Sample.padding.length = 1056 := List.length_replicate
  have hcounter : 1 ≤ 7 ∧ 7 ≤ Browser.maxSafe := by decide
  have hitem : Stored (Text.bytes "Ada") SharedName.Sample.raw record Sample.nextKey Sample.nextContext
      (sourceItem (browserSource (SharedName.Sample.source body))) := hstored
  obtain ⟨frame, hseal⟩ := recipient_sealed SharedName.Sample.correct hitem (SharedName.Sample.valid_source body) rfl rfl rfl
    (show "https://v.example".utf8ByteSize < 2 ^ 16 by decide) (show (⟨4, 4⟩ : RecordAuthority).valid = true by decide) rfl hcipher ⟨by omega, by omega, hhead, rfl⟩ rfl (by decide) (by decide)
    (by decide) hpk hcounter hcounter (if_pos hcoins) (by rw [List.length_append, hcoins, hpadding])
  have hsource := (valid_sourceJson (show (SharedName.Sample.source body).recordId = "name" from rfl)).mpr (SharedName.Sample.valid_source body)
  obtain ⟨source, -, _, name, -, -, -, -, -, -, -, hname, hbytes⟩ := name_delivered SharedName.Sample.correct hkept
    (validate_recipientJson hpk hcounter hcounter) (Base64url.decode_encode _) rfl hseal (by
      intro source aad aad' hparse h h' key nonce msg out _
      rw [hsource] at hparse
      cases hparse
      have hitem : sourceItem (browserSource (SharedName.Sample.source body)) = SharedName.Sample.item := rfl
      rw [hitem, h] at h'
      cases h'
      rfl)
  exact ⟨source, SharedName.Sample.raw, _, name, hname, hbytes⟩

end Mikaki.Vault.OwnerCrypto
