import Mikaki.Identity.Encryption
import Mikaki.Lib.JsonSound

/-!
# Messages of any size are read back

What is encrypted for a key is decrypted with it, and the message is no longer
than what a recipient reads. The compression may add a tenth and a little more;
the limits of a response leave room for that and for the longest header.
-/

namespace Mikaki.Identity.Encryption

open Checks Json
open Wallet (PublicJwk orElse orElse_eq_ok)

section
variable {Secret : Type} [Jose Secret]

/-- The header that a message is written with. -/
def headerOf (recipient : ResponseEncryption) (epk : PublicJwk) : Header :=
  { alg := "ECDH-ES", enc := recipient.enc, kid := recipient.jwk.kid, epk, apu := none, apv := none,
    extra := ("cty", .str "json") :: recipient.zip.elim [] fun _ => [("zip", .str "DEF")] }

/-- The most that a compression makes of so many bytes. -/
def compressBound (n : Nat) : Nat := max (128 + n * 110 / 100) (128 + n + (n / (31 * 1024) + 1) * 5)

variable (Secret) in
/-- What the packages are relied on for. -/
structure Correct : Prop where
  point : ∀ s : Secret, onCurve (point s) = true ∧ ∃ x y : Bytes, x.length = 32 ∧ y.length = 32 ∧ Jose.point s = 4 :: x ++ y
  agreement : ∀ s t : Secret, diffieHellman s (Jose.point t) = diffieHellman t (Jose.point s)
  cipher : ∀ {key iv : Bytes} (aad : Bytes) {msg : Bytes}, key.length = 16 ∨ key.length = 32 → iv.length = 12 → msg.length < 2 ^ 32 →
    ∃ c, Jose.encrypt key iv aad msg = some c ∧ c.length = msg.length + 16 ∧ Jose.decrypt key iv aad c = some msg
  stream : ∀ {msg : Bytes} {room : Nat}, msg.length ≤ room → ∃ output : Vector UInt8 room,
    Jose.decompress (Jose.compress msg) room = (true, (Jose.compress msg).length, output, msg.length) ∧
      output.toList.take msg.length = msg
  compressed : ∀ msg : Bytes, (Jose.compress msg).length ≤ compressBound msg.length
  header : ∀ recipient epk, Jose.readHeader (Text.bytes (headerValue recipient epk).render) = some (headerOf recipient epk)

/-! ## Keys -/

theorem decode_encode (bs : Bytes) : decode (Base64url.encode bs) = .ok bs := by
  rw [decode, Base64url.decode_encode]
  exact (congrArg (· >>= _) rfl).trans (by simp [orElse, denyIf])

theorem verifyingKey_fromPoint (hc : Correct Secret) (s : Secret) : verifyingKey (fromPoint (point s)) = .ok (point s) := by
  obtain ⟨hon, x, y, hx, hy, he⟩ := hc.point s
  have h1 : ((point s).drop 1).take 32 = x := by
    rw [he]
    exact List.take_left' hx
  have h2 : (point s).drop 33 = y := by
    rw [he]
    have h33 : (4 :: x).length = 33 := by rw [List.length_cons, hx]
    exact List.drop_left' h33
  unfold verifyingKey fromPoint
  dsimp only
  rw [h1, h2, Base64url.decode_encode, Base64url.decode_encode]
  rw [List.cons_append] at he
  rw [he] at hon
  simp [orElse, denyIf, hx, hy, hon, he]

theorem length_cek {secret : Secret} {key : PublicJwk} {enc : String} {apu apv k : Bytes} (h : cek secret key enc apu apv = .ok k) :
    cipher enc k = .ok () ∧ (k.length = 16 ∨ k.length = 32) := by
  unfold cek at h
  simp only [bind_eq_ok, pure_eq_ok] at h
  obtain ⟨n, hn, point, -, rfl⟩ := h
  unfold bits at hn
  unfold cipher
  split at hn
  · rename_i he
    cases hn
    rw [if_pos he]
    exact ⟨rfl, .inl rfl⟩
  split at hn
  · rename_i hne he
    cases hn
    rw [if_neg hne, if_pos he]
    exact ⟨rfl, .inr rfl⟩
  · cases hn

/-- Both sides derive one key. -/
theorem cek_agrees (hc : Correct Secret) (s t : Secret) (enc : String) (apu apv : Bytes) :
    cek s (fromPoint (point t)) enc apu apv = cek t (fromPoint (point s)) enc apu apv := by
  rw [cek, cek, verifyingKey_fromPoint hc, verifyingKey_fromPoint hc]
  simp only [Except.mapError, ok_bind, hc.agreement s t]

theorem publicJwk_eq_ok {k : EncryptionKey} {j : PublicJwk} (h : k.publicJwk = .ok j) : j = k.jwk ∧ ∀ kid ∈ k.kid, kid.utf8ByteSize ≤ 128 := by
  unfold EncryptionKey.publicJwk at h
  simp only [bind_eq_ok, exists_unit, denyIf_eq_ok, pure_eq_ok] at h
  obtain ⟨hdeny, -, -, rfl⟩ := h
  refine ⟨rfl, fun kid hkid => ?_⟩
  by_contra hlong
  exact hdeny (.inr (.inl ⟨kid, hkid, .inr (Nat.not_le.mp hlong)⟩))

/-! ## Headers -/

theorem width_jwk (s : Bytes) (h : s.length = 65) : width (fromPoint s).json.chars ≤ 127 := by
  have hx : ((s.drop 1).take 32).length = 32 := by
    rw [List.length_take, List.length_drop]
    omega
  have hy : (s.drop 33).length = 32 := by
    rw [List.length_drop]
    omega
  have he := width_obj [("crv", Value.str "P-256"), ("kty", .str "EC"), ("x", .str (fromPoint s).x), ("y", .str (fromPoint s).y)]
  have h1 : width (literal (fromPoint s).x) = 45 := by
    rw [fromPoint, width_encode, hx]
  have h2 : width (literal (fromPoint s).y) = 45 := by
    rw [fromPoint, width_encode, hy]
  refine Nat.le_trans he ?_
  simp only [keysWidth, valuesWidth, List.map_cons, List.map_nil, List.sum_cons, List.sum_nil, Value.chars, h1, h2]
  decide +kernel

theorem length_point (hc : Correct Secret) (s : Secret) : (point s).length = 65 := by
  obtain ⟨-, x, y, hx, hy, he⟩ := hc.point s
  rw [he, List.length_append, List.length_cons, hx, hy]

theorem bits_size {enc : String} {n : Nat} (h : bits enc = .ok n) : width (literal enc) = 9 := by
  unfold bits at h
  split at h
  · rename_i he
    rw [he]
    decide +kernel
  split at h
  · rename_i he
    rw [he]
    decide +kernel
  · cases h

/-- With the longest key id the header has fewer than a thousand bytes. -/
theorem width_header (hc : Correct Secret) {recipient : ResponseEncryption} {j : PublicJwk} {n : Nat}
    (hj : recipient.jwk.publicJwk = .ok j) (hn : bits recipient.enc = .ok n) (s : Secret) :
    width (headerValue recipient (fromPoint (point s))).chars ≤ 970 := by
  have hepk := width_jwk (point s) (length_point hc s)
  have henc := bits_size hn
  have hkid : keysWidth ((recipient.jwk.kid.elim [] fun kid => [("kid", Value.str kid)]).map Prod.fst) +
      valuesWidth ((recipient.jwk.kid.elim [] fun kid => [("kid", Value.str kid)]).map Prod.snd) ≤ 777 := by
    have hkid := (publicJwk_eq_ok hj).2
    cases hk : recipient.jwk.kid with
    | none => exact Nat.zero_le _
    | some kid =>
      have hw := literal_any kid
      have hsize := hkid kid hk
      have hname : width (literal "kid") = 5 := by decide +kernel
      simp only [Option.elim_some, List.map_cons, List.map_nil, keysWidth, valuesWidth, List.sum_cons, List.sum_nil, Value.chars, hname]
      omega
  have hzip : keysWidth ((recipient.zip.elim [] fun _ => [("zip", Value.str "DEF")]).map Prod.fst) +
      valuesWidth ((recipient.zip.elim [] fun _ => [("zip", Value.str "DEF")]).map Prod.snd) ≤ 12 := by
    cases recipient.zip with
    | none => exact Nat.zero_le _
    | some z => exact show keysWidth ["zip"] + valuesWidth [Value.str "DEF"] ≤ 12 by decide +kernel
  have hfixed : keysWidth ["alg", "cty", "enc", "epk"] = 28 := by decide +kernel
  have hvalues : valuesWidth [Value.str "ECDH-ES", .str "json", .str recipient.enc, (fromPoint (point s)).json] ≤ 151 := by
    have h1 : width (Value.str "ECDH-ES").chars = 9 := by decide +kernel
    have h2 : width (Value.str "json").chars = 6 := by decide +kernel
    have h3 : width (Value.str recipient.enc).chars = 9 := by rw [Value.chars, henc]
    simp only [valuesWidth, List.map_cons, List.map_nil, List.sum_cons, List.sum_nil, h1, h2, h3]
    omega
  have hobj := width_obj ([("alg", Value.str "ECDH-ES"), ("cty", .str "json"), ("enc", .str recipient.enc),
    ("epk", (fromPoint (point s)).json)] ++ (recipient.jwk.kid.elim [] fun kid => [("kid", .str kid)]) ++
    (recipient.zip.elim [] fun _ => [("zip", .str "DEF")]))
  simp only [List.map_append, keysWidth_append, valuesWidth_append] at hobj
  change _ ≤ keysWidth ["alg", "cty", "enc", "epk"] + _ + _ +
    (valuesWidth [Value.str "ECDH-ES", .str "json", .str recipient.enc, (fromPoint (point s)).json] + _ + _) + 2 at hobj
  refine Nat.le_trans hobj ?_
  omega

/-! ## Five parts -/

/-- The text of five parts, of which the second one is empty. -/
def joined (header iv body tag : String) : String := header ++ ".." ++ iv ++ "." ++ body ++ "." ++ tag

theorem segments_joined {header iv body tag : String} (h : ∀ s ∈ [header, iv, body, tag], '.' ∉ s.toList) :
    segments (joined header iv body tag) = [header, "", iv, body, tag] := by
  have hjoin : (joined header iv body tag).toList = ['.'].intercalate [header.toList, [], iv.toList, body.toList, tag.toList] := by
    simp [joined, List.intercalate, List.intersperse]
  have hparts : ∀ l ∈ [header.toList, [], iv.toList, body.toList, tag.toList], '.' ∉ l := by
    simp only [List.forall_mem_cons] at h ⊢
    obtain ⟨h1, h2, h3, h4, -⟩ := h
    exact ⟨h1, List.not_mem_nil, h2, h3, h4, fun _ hl => (List.not_mem_nil hl).elim⟩
  rw [segments, hjoin, List.splitOn_intercalate '.' hparts (List.cons_ne_nil _ _)]
  simp

theorem dot_not_mem (bs : Bytes) : '.' ∉ (Base64url.encode bs).toList := by
  intro h
  rw [Base64url.encode, String.toList_ofList] at h
  exact absurd (Base64url.urlSafe_chars bs _ h) (by decide)

/-! ## Sending -/

/-- What is encrypted of a plaintext. -/
def sent (recipient : ResponseEncryption) (plain : Bytes) : Bytes := recipient.zip.elim plain fun _ => Jose.compress plain

/-- The most bytes that are encrypted of a plaintext within a limit. -/
def sentBound (recipient : ResponseEncryption) (limit : Nat) : Nat := recipient.zip.elim limit fun _ => compressBound limit

theorem compressBound_le {m n : Nat} (h : m ≤ n) : compressBound m ≤ compressBound n := by
  have h1 : m * 110 / 100 ≤ n * 110 / 100 := Nat.div_le_div_right (Nat.mul_le_mul_right _ h)
  have h2 : m / (31 * 1024) ≤ n / (31 * 1024) := Nat.div_le_div_right h
  exact max_le_max (by omega) (by omega)

theorem length_sent (hc : Correct Secret) (recipient : ResponseEncryption) {plain : Bytes} {limit : Nat} (h : plain.length ≤ limit) :
    (sent recipient plain).length ≤ sentBound recipient limit := by
  unfold sent sentBound
  cases recipient.zip with
  | none => exact h
  | some z => exact Nat.le_trans (hc.compressed plain) (compressBound_le h)

/-- A recipient that a message can be written for. -/
structure Recipient (recipient : ResponseEncryption) (key : RequestKey Secret) : Prop where
  jwk : recipient.jwk.publicJwk = key.jwk.publicJwk
  kid : recipient.jwk.kid = key.jwk.kid
  enc : ∃ n, bits recipient.enc = .ok n
  zip : ∀ z ∈ recipient.zip, z = "DEF"
  extra : recipient.extra.lookup "alg" = none

theorem Recipient.validate {recipient : ResponseEncryption} {key : RequestKey Secret} (h : Recipient recipient key) :
    recipient.validate = .ok () := by
  obtain ⟨n, hn⟩ := h.enc
  have hj : recipient.jwk.publicJwk = .ok _ := h.jwk.trans key.matching
  have hrest : ¬((∃ z ∈ recipient.zip, z ≠ "DEF") ∨ (recipient.extra.lookup "alg").isSome = true) := by
    rintro (⟨z, hz, hne⟩ | he)
    · exact hne (h.zip z hz)
    · rw [h.extra] at he
      cases he
  rw [ResponseEncryption.validate, hj, ok_bind, hn, ok_bind, denyIf, if_neg hrest]

/-- The text of the header of a message. -/
def headerText (recipient : ResponseEncryption) (s : Secret) : String :=
  Base64url.encode (Text.bytes (headerValue recipient (fromPoint (point s))).render)

theorem encryptBounded_eq (hc : Correct Secret) {recipient : ResponseEncryption} {key : RequestKey Secret} (hr : Recipient recipient key)
    {entropy : Vector UInt8 32} {s : Secret} (hs : secretFromSlice entropy.toList = some s) (iv : Vector UInt8 12) {plain : Bytes}
    {limit : Nat} (hp : plain.length ≤ limit) (hl : sentBound recipient limit < 2 ^ 32) :
    ∃ k body tag : Bytes, cek s (fromPoint (point key.secret)) recipient.enc [] [] = .ok k ∧
      body.length = (sent recipient plain).length ∧ tag.length = 16 ∧
      Jose.decrypt k iv.toList (Text.bytes (headerText recipient s)) (body ++ tag) = some (sent recipient plain) ∧
      encryptBounded plain recipient entropy iv limit = .ok (joined (headerText recipient s) (Base64url.encode iv.toList)
        (Base64url.encode body) (Base64url.encode tag)) := by
  obtain ⟨n, hn⟩ := hr.enc
  have hj : recipient.jwk.publicJwk = .ok (fromPoint (point key.secret)) := hr.jwk.trans key.matching
  have hk : ∃ k, cek s (fromPoint (point key.secret)) recipient.enc [] [] = .ok k := by
    rw [cek, hn, verifyingKey_fromPoint hc]
    exact ⟨_, rfl⟩
  obtain ⟨k, hk⟩ := hk
  obtain ⟨hcipher, hlen⟩ := length_cek hk
  have hsent := length_sent hc recipient hp
  obtain ⟨c, henc, hcl, hdec⟩ := hc.cipher (Text.bytes (headerText recipient s)) hlen (Vector.length_toList : iv.toList.length = 12)
    (Nat.lt_of_le_of_lt hsent hl)
  refine ⟨k, c.take (c.length - 16), c.drop (c.length - 16), hk, ?_, ?_, ?_, ?_⟩
  · rw [List.length_take]
    omega
  · rw [List.length_drop]
    omega
  · rw [List.take_append_drop]
    exact hdec
  · unfold encryptBounded
    rw [hr.validate, ok_bind, denyIf, if_neg (Nat.not_lt.mpr hp), ok_bind, hs, orElse, ok_bind, hj, ok_bind, hk, ok_bind]
    dsimp only
    rw [hcipher, ok_bind]
    change (orElse error (Jose.encrypt k iv.toList (Text.bytes (headerText recipient s)) (sent recipient plain)) >>= _) = _
    rw [henc, orElse, ok_bind, List.splitAt_eq, pure_eq_ok]
    rw [joined, headerText]

/-! ## Receiving -/

theorem inflate_compress (hc : Correct Secret) {plain : Bytes} {limit : Nat} (h : plain.length ≤ limit) :
    inflate (Jose.compress plain) limit = .ok plain := by
  obtain ⟨output, hd, htake⟩ := hc.stream h
  rw [inflate, hd]
  simp [denyIf, htake]

/-- Every plaintext that a decompression gives fits the buffer that it had. -/
theorem length_inflate {plain out : Bytes} {limit : Nat} (h : inflate plain limit = .ok out) : out.length ≤ limit := by
  unfold inflate at h
  split at h
  rename_i output written _
  simp only [bind_eq_ok, pure_eq_ok] at h
  obtain ⟨-, -, rfl⟩ := h
  rw [List.length_take, Vector.length_toList]
  exact Nat.min_le_right _ _

/-- The members without a name of a header that was written. -/
theorem lookup_extra (recipient : ResponseEncryption) (epk : PublicJwk) :
    (headerOf recipient epk).extra.lookup "zip" = recipient.zip.map (fun _ => Value.str "DEF") ∧
      ∀ k ∈ ["crit", "b64", "jku", "x5u"], (headerOf recipient epk).extra.lookup k = none := by
  unfold headerOf
  cases recipient.zip with
  | none => simp [List.lookup]
  | some z => simp [List.lookup]

/-- What was sent is read with the key that it was sent to. -/
theorem decryptParts_sent (hc : Correct Secret) {recipient : ResponseEncryption} {key : RequestKey Secret} (hr : Recipient recipient key)
    {s : Secret} {k body tag plain : Bytes} (iv : Vector UInt8 12) {limit : Nat} {expectedEnc : Option String} {allowDeflate : Bool}
    (hp : plain.length ≤ limit) (henc : ∀ enc ∈ expectedEnc, recipient.enc = enc) (hzip : recipient.zip.isSome → allowDeflate = true)
    (hk : cek s (fromPoint (point key.secret)) recipient.enc [] [] = .ok k) (htag : tag.length = 16)
    (hdec : Jose.decrypt k iv.toList (Text.bytes (headerText recipient s)) (body ++ tag) = some (sent recipient plain)) :
    decryptParts (headerText recipient s) (Base64url.encode iv.toList) (Base64url.encode body) (Base64url.encode tag) key limit
      expectedEnc allowDeflate = .ok plain := by
  obtain ⟨hz, hother⟩ := lookup_extra recipient (fromPoint (point s))
  have hdeny : ¬((headerOf recipient (fromPoint (point s))).alg ≠ "ECDH-ES" ∨
      (headerOf recipient (fromPoint (point s))).kid ≠ key.jwk.kid ∨
      (∃ enc ∈ expectedEnc, (headerOf recipient (fromPoint (point s))).enc ≠ enc) ∨
      (∃ z ∈ (headerOf recipient (fromPoint (point s))).extra.lookup "zip", allowDeflate = false ∨ z.asStr ≠ some "DEF") ∨
      ∃ k ∈ ["crit", "b64", "jku", "x5u"], ((headerOf recipient (fromPoint (point s))).extra.lookup k).isSome) := by
    rintro (h | h | ⟨enc, he, h⟩ | ⟨z, he, h⟩ | ⟨name, hn, h⟩)
    · exact h rfl
    · exact h hr.kid
    · exact h (henc enc he)
    · rw [hz] at he
      cases hzs : recipient.zip with
      | none =>
        rw [hzs] at he
        cases he
      | some v =>
        rw [hzs] at he hzip
        cases he
        obtain h | h := h
        · exact absurd (hzip rfl) (by simp [h])
        · exact h rfl
    · rw [hother name hn] at h
      cases h
  have hk' : cek key.secret (headerOf recipient (fromPoint (point s))).epk (headerOf recipient (fromPoint (point s))).enc [] [] = .ok k := by
    rw [← hk]
    exact (cek_agrees hc s key.secret recipient.enc [] []).symm
  have hlen : ¬(iv.toList.length ≠ 12 ∨ tag.length ≠ 16) := by simp [htag]
  rw [decryptParts]
  conv => lhs; rw [headerText]
  rw [decode_encode, ok_bind, hc.header, orElse, ok_bind, denyIf, if_neg hdeny, ok_bind]
  have hapu : party (headerOf recipient (fromPoint (point s))).apu = .ok [] := rfl
  have hapv : party (headerOf recipient (fromPoint (point s))).apv = .ok [] := rfl
  rw [hapu, ok_bind, hapv, ok_bind, hk', ok_bind, decode_encode, ok_bind, decode_encode, ok_bind, denyIf, if_neg hlen, ok_bind,
    decode_encode, ok_bind]
  have hcipher : cipher (headerOf recipient (fromPoint (point s))).enc k = .ok () := (length_cek hk).1
  rw [hcipher, ok_bind]
  change (orElse error (Jose.decrypt k iv.toList (Text.bytes (headerText recipient s)) (body ++ tag)) >>= _) = _
  rw [hdec, orElse, ok_bind, hz]
  unfold sent
  cases recipient.zip with
  | none => simp [denyIf, Nat.not_lt.mpr hp]
  | some z => exact inflate_compress hc hp

/-- Every payload with a plaintext within the limit is sent in a message that is short enough and is read back from it. -/
def RoundTrip {α : Type} (plainOf : α → Except String Bytes) (send : α → Except String String) (receive : String → Except String Bytes)
    (plainLimit wireLimit : Nat) : Prop :=
  ∀ a plain, plainOf a = .ok plain → plain.length ≤ plainLimit →
    ∃ compact, send a = .ok compact ∧ compact.utf8ByteSize ≤ wireLimit ∧ receive compact = .ok plain

theorem size_joined (header iv body tag : String) : (joined header iv body tag).utf8ByteSize =
    header.utf8ByteSize + iv.utf8ByteSize + body.utf8ByteSize + tag.utf8ByteSize + 4 := by
  have h1 : (".." : String).utf8ByteSize = 2 := by decide
  have h2 : ("." : String).utf8ByteSize = 1 := by decide
  simp only [joined, String.utf8ByteSize_append, h1, h2]
  omega

theorem size_headerText (hc : Correct Secret) {recipient : ResponseEncryption} {key : RequestKey Secret} (hr : Recipient recipient key)
    (s : Secret) : (headerText recipient s).utf8ByteSize ≤ 1294 := by
  obtain ⟨n, hn⟩ := hr.enc
  have hw := width_header hc (hr.jwk.trans key.matching) hn s
  rw [headerText, Base64url.size_encode, Text.length_bytes, size_render]
  omega

/-- With room for the header, the nonce and the tag a message arrives. -/
theorem sent_and_read (hc : Correct Secret) {recipient : ResponseEncryption} {key : RequestKey Secret} (hr : Recipient recipient key)
    {entropy : Vector UInt8 32} {s : Secret} (hs : secretFromSlice entropy.toList = some s) (iv : Vector UInt8 12)
    {plainLimit wireLimit : Nat} (expectedEnc : Option String) (allowDeflate : Bool) (henc : ∀ enc ∈ expectedEnc, recipient.enc = enc)
    (hzip : recipient.zip.isSome → allowDeflate = true) (hroom : 1336 + (4 * sentBound recipient plainLimit + 2) / 3 ≤ wireLimit)
    (hwire : wireLimit < 2 ^ 32) :
    RoundTrip .ok (encryptBounded · recipient entropy iv plainLimit)
      (decryptMessage · key wireLimit plainLimit expectedEnc allowDeflate) plainLimit wireLimit := by
  intro plain _ hplain hp
  cases hplain
  obtain ⟨k, body, tag, hk, hbody, htag, hdec, he⟩ := encryptBounded_eq hc hr hs iv hp (by omega)
  have hheader := size_headerText hc hr s
  have hsent := length_sent hc recipient hp
  have hiv : (Base64url.encode iv.toList).utf8ByteSize = 16 := by rw [Base64url.size_encode, Vector.length_toList]
  have hsize : (joined (headerText recipient s) (Base64url.encode iv.toList) (Base64url.encode body) (Base64url.encode tag)).utf8ByteSize ≤
      wireLimit := by
    rw [size_joined, hiv, Base64url.size_encode body, Base64url.size_encode tag, hbody, htag]
    omega
  have hdots : ∀ s' ∈ [headerText recipient s, Base64url.encode iv.toList, Base64url.encode body, Base64url.encode tag], '.' ∉ s'.toList := by
    simp only [List.forall_mem_cons]
    exact ⟨dot_not_mem _, dot_not_mem _, dot_not_mem _, dot_not_mem _, fun _ h => (List.not_mem_nil h).elim⟩
  have hp0 : ¬(("" : String) ≠ "" ∨ (headerText recipient s).utf8ByteSize > 4096) := by
    rintro (h | h)
    · exact h rfl
    · omega
  refine ⟨_, he, hsize, ?_⟩
  change decryptMessage _ key wireLimit plainLimit expectedEnc allowDeflate = .ok plain
  rw [decryptMessage, denyIf, if_neg (Nat.not_lt.mpr hsize), ok_bind, segments_joined hdots]
  dsimp only
  rw [denyIf, if_neg hp0, ok_bind]
  exact decryptParts_sent hc hr iv hp henc hzip hk htag hdec

/-! ## Limits -/

theorem length_decryptParts {p0 p2 p3 p4 : String} {key : RequestKey Secret} {plainLimit : Nat} {expectedEnc : Option String}
    {allowDeflate : Bool} {plain : Bytes} (h : decryptParts p0 p2 p3 p4 key plainLimit expectedEnc allowDeflate = .ok plain) :
    plain.length ≤ plainLimit := by
  unfold decryptParts at h
  obtain ⟨_, -, h⟩ := bind_eq_ok.mp h
  obtain ⟨header, -, h⟩ := bind_eq_ok.mp h
  obtain ⟨apu, -, h⟩ := bind_eq_ok.mp (check_bind_eq_ok.mp h).2
  obtain ⟨apv, -, h⟩ := bind_eq_ok.mp h
  obtain ⟨cek, -, h⟩ := bind_eq_ok.mp h
  obtain ⟨iv, -, h⟩ := bind_eq_ok.mp h
  obtain ⟨tag, -, h⟩ := bind_eq_ok.mp h
  obtain ⟨body, -, h⟩ := bind_eq_ok.mp (check_bind_eq_ok.mp h).2
  obtain ⟨plain', -, h⟩ := bind_eq_ok.mp (check_bind_eq_ok.mp h).2
  split at h
  · exact length_inflate h
  · rw [check_bind_eq_ok, denyIf_eq_ok, pure_eq_ok] at h
    obtain ⟨hle, rfl⟩ := h
    exact Nat.not_lt.mp hle

theorem length_decryptMessage {compact : String} {key : RequestKey Secret} {wireLimit plainLimit : Nat} {expectedEnc : Option String}
    {allowDeflate : Bool} {plain : Bytes} (h : decryptMessage compact key wireLimit plainLimit expectedEnc allowDeflate = .ok plain) :
    compact.utf8ByteSize ≤ wireLimit ∧ plain.length ≤ plainLimit := by
  unfold decryptMessage at h
  simp only [check_bind_eq_ok, denyIf_eq_ok] at h
  obtain ⟨hwire, h⟩ := h
  refine ⟨Nat.not_lt.mp hwire, ?_⟩
  split at h
  · exact length_decryptParts (check_bind_eq_ok.mp h).2
  · cases h

/-- No message of a request or a response gives more than the limit of its plaintext. -/
def Limited (receive : String → Except String Bytes) (plainLimit : Nat) : Prop :=
  ∀ compact plain, receive compact = .ok plain → plain.length ≤ plainLimit

theorem limited_decryptMessage (key : RequestKey Secret) (wireLimit plainLimit : Nat) (expectedEnc : Option String) (allowDeflate : Bool) :
    Limited (decryptMessage · key wireLimit plainLimit expectedEnc allowDeflate) plainLimit := fun _ _ h => (length_decryptMessage h).2

/-! ## The wallet and the issuer -/

/-- A key as it is read from its metadata. -/
def published (k : EncryptionKey) : EncryptionKey := { k with usage := some "enc", keyOps := none, extra := [] }

theorem read_metadata (k : EncryptionKey) : EncryptionKey.read k.metadata = some (published k) := by
  unfold EncryptionKey.metadata EncryptionKey.read published
  cases k.kid with
  | none => simp [optional, Json.Value.asStr, List.lookup]
  | some kid => simp [optional, Json.Value.asStr, List.lookup]

theorem publicJwk_published {k : EncryptionKey} {j : PublicJwk} (h : k.publicJwk = .ok j) : (published k).publicJwk = .ok j := by
  unfold EncryptionKey.publicJwk published EncryptionKey.jwk at *
  simp only [bind_eq_ok, exists_unit, denyIf_eq_ok, pure_eq_ok] at h ⊢
  obtain ⟨hdeny, key, hkey, rfl⟩ := h
  refine ⟨?_, key, hkey, rfl⟩
  rintro (halg | hkid | ⟨u, hu, hne⟩ | ⟨ops, hops, -⟩ | ⟨name, -, hsome⟩)
  · exact hdeny (.inl halg)
  · exact hdeny (.inr (.inl hkid))
  · cases hu
    exact hne rfl
  · cases hops
  · cases hsome

/-- The recipient that an issuer reads from the parameters of a wallet. -/
def responseTo (w : WalletEncryption Secret) : ResponseEncryption :=
  ⟨published w.recipient.jwk, w.enc, if w.deflate then some "DEF" else none, []⟩

theorem read_parameters (w : WalletEncryption Secret) : ResponseEncryption.read w.parameters = some (responseTo w) := by
  unfold WalletEncryption.parameters ResponseEncryption.read responseTo
  cases w.deflate with
  | false => simp [optional, List.lookup, read_metadata, Json.Value.asStr]
  | true => simp [optional, List.lookup, read_metadata, Json.Value.asStr]

theorem choose_bits {req res : Value} {enc : String} (h : WalletEncryption.choose req res = some enc) : ∃ n, bits enc = .ok n := by
  have hmem := List.mem_of_find?_eq_some h
  rw [List.mem_pair] at hmem
  obtain rfl | rfl := hmem
  · exact ⟨256, rfl⟩
  · exact ⟨128, rfl⟩

/-- The cipher that is negotiated is one of the two. -/
theorem ofMetadata_bits {req res : Value} {seed : Vector UInt8 32} {kid : String} {w : WalletEncryption Secret}
    (h : WalletEncryption.ofMetadata req res seed kid = .ok w) : ∃ n, bits w.enc = .ok n := by
  unfold WalletEncryption.ofMetadata at h
  obtain ⟨enc, henc, h⟩ := bind_eq_ok.mp (check_bind_eq_ok.mp (check_bind_eq_ok.mp h).2).2
  have hbits := choose_bits (orElse_eq_ok.mp henc)
  split at h
  · obtain ⟨keys, -, h⟩ := bind_eq_ok.mp (check_bind_eq_ok.mp h).2
    obtain ⟨request, -, h⟩ := bind_eq_ok.mp h
    obtain ⟨secret, -, h⟩ := bind_eq_ok.mp h
    dsimp only at h
    split at h
    · rw [check_bind_eq_ok, pure_eq_ok] at h
      obtain ⟨-, rfl⟩ := h
      exact hbits
    · cases h
  · cases h

theorem fromMetadata_bits {metadata : Value} {seed : Vector UInt8 32} {kid : String} {w : WalletEncryption Secret}
    (h : WalletEncryption.fromMetadata metadata seed kid = .ok (some w)) : ∃ n, bits w.enc = .ok n := by
  unfold WalletEncryption.fromMetadata at h
  dsimp only at h
  split at h
  · cases h
  · obtain ⟨wallet, hw, h⟩ := bind_eq_ok.mp h
    cases h
    exact ofMetadata_bits hw
  · cases h

theorem recipient_published {k : RequestKey Secret} {enc : String} (henc : ∃ n, bits enc = .ok n) {zip : Option String}
    (hzip : ∀ z ∈ zip, z = "DEF") : Recipient ⟨published k.jwk, enc, zip, []⟩ k :=
  { jwk := (publicJwk_published k.matching).trans k.matching.symm
    kid := rfl
    enc := henc
    zip := hzip
    extra := rfl }

theorem zip_responseTo (w : WalletEncryption Secret) : (∀ z ∈ (responseTo w).zip, z = "DEF") ∧ ((responseTo w).zip.isSome → w.deflate = true) := by
  unfold responseTo
  cases w.deflate with
  | false => exact ⟨fun z hz => (Option.not_mem_none z hz).elim, fun h => absurd h Bool.false_ne_true⟩
  | true => exact ⟨fun z hz => (Option.mem_some.mp hz).symm, fun _ => rfl⟩

/-- A response to a wallet is read by it, compressed or not. -/
theorem round_trip_response (hc : Correct Secret) {w : WalletEncryption Secret} (hw : ∃ n, bits w.enc = .ok n) {zip : Option String}
    (hzip : zip = none ∨ zip = (responseTo w).zip) {entropy : Vector UInt8 32} {s : Secret}
    (hs : secretFromSlice entropy.toList = some s) (iv : Vector UInt8 12) {plainLimit wireLimit : Nat}
    (hroom : 1336 + (4 * compressBound plainLimit + 2) / 3 ≤ wireLimit) (hwire : wireLimit < 2 ^ 32) :
    RoundTrip .ok (encryptBounded · { responseTo w with zip } entropy iv plainLimit)
      (decryptMessage · w.recipient wireLimit plainLimit (some w.enc) w.deflate) plainLimit wireLimit := by
  have hz : (∀ z ∈ zip, z = "DEF") ∧ (zip.isSome → w.deflate = true) := by
    obtain rfl | rfl := hzip
    · exact ⟨fun z hz => (Option.not_mem_none z hz).elim, fun h => absurd h Bool.false_ne_true⟩
    · exact zip_responseTo w
  have hbound : sentBound { responseTo w with zip } plainLimit ≤ compressBound plainLimit := by
    unfold sentBound
    cases zip with
    | none =>
      have hle : plainLimit ≤ 128 + plainLimit + (plainLimit / (31 * 1024) + 1) * 5 := by omega
      exact Nat.le_trans hle (Nat.le_max_right _ _)
    | some z => exact Nat.le_refl _
  have hr : Recipient { responseTo w with zip } w.recipient := recipient_published hw hz.1
  refine sent_and_read hc hr hs iv _ _ ?_ hz.2 (by omega) hwire
  exact fun enc h => Option.mem_some.mp h

/-- A request of a wallet is read with the key that it was made for. -/
theorem round_trip_request (hc : Correct Secret) {w : WalletEncryption Secret} (hw : ∃ n, bits w.enc = .ok n) {key : RequestKey Secret}
    (hk : EncryptionKey.read key.jwk.metadata = some w.request) {entropy : Vector UInt8 32} {s : Secret}
    (hs : secretFromSlice entropy.toList = some s) (iv : Vector UInt8 12) {plainLimit wireLimit : Nat}
    (hroom : 1336 + (4 * plainLimit + 2) / 3 ≤ wireLimit) (hwire : wireLimit < 2 ^ 32) :
    RoundTrip w.requestPlain (w.prepareBoundedRequest · entropy iv plainLimit wireLimit)
      (decryptMessage · key wireLimit plainLimit none false) plainLimit wireLimit := by
  have hrequest : w.request = published key.jwk := by
    rw [read_metadata] at hk
    exact (Option.some.inj hk).symm
  have hr : Recipient ⟨w.request, w.enc, none, []⟩ key := by
    rw [hrequest]
    exact recipient_published hw fun z hz => (Option.not_mem_none z hz).elim
  intro payload plain hpayload hp
  obtain ⟨compact, hsend, hsize, hreceive⟩ := sent_and_read hc hr hs iv none false
    (fun enc h => (Option.not_mem_none enc h).elim) (fun h => absurd h Bool.false_ne_true) hroom hwire plain plain rfl hp
  refine ⟨compact, ?_, hsize, hreceive⟩
  dsimp only at hsend ⊢
  rw [WalletEncryption.prepareBoundedRequest, hpayload, ok_bind, WalletEncryption.encryptRequest, denyIf, if_neg (Nat.not_lt.mpr hp),
    ok_bind, hsend, ok_bind, denyIf, if_neg (Nat.not_lt.mpr hsize)]
  rfl

/-- Between a wallet and the issuer whose metadata it took its keys from, requests and responses of every size arrive, and nothing
larger is ever read. -/
theorem messages_arrive (hc : Correct Secret) {metadata : Value} {seed : Vector UInt8 32} {kid : String} {w : WalletEncryption Secret}
    (hw : WalletEncryption.fromMetadata metadata seed kid = .ok (some w)) {key : RequestKey Secret}
    (hk : EncryptionKey.read key.jwk.metadata = some w.request) {entropy : Vector UInt8 32} {s : Secret}
    (hs : secretFromSlice entropy.toList = some s) (iv : Vector UInt8 12) :
    RoundTrip w.requestPlain (w.prepareRequest · entropy iv) (decryptRequest · key) requestPlainLimit requestWireLimit ∧
      RoundTrip w.requestPlain (w.prepareBatchRequest · entropy iv) (decryptBatchRequest · key) batchRequestPlainLimit batchRequestWireLimit ∧
      (∃ r, ResponseEncryption.read w.parameters = some r ∧ ∀ zip, zip = none ∨ zip = r.zip →
        RoundTrip .ok (encryptResponse · { r with zip } entropy iv) w.decryptResponse responsePlainLimit responseWireLimit ∧
        RoundTrip .ok (encryptBatchResponse · { r with zip } entropy iv) w.decryptBatchResponse batchResponsePlainLimit
          batchResponseWireLimit) ∧
      (∀ key : RequestKey Secret,
        Limited (decryptRequest · key) requestPlainLimit ∧ Limited (decryptBatchRequest · key) batchRequestPlainLimit) ∧
      ∀ w : WalletEncryption Secret,
        Limited w.decryptResponse responsePlainLimit ∧ Limited w.decryptBatchResponse batchResponsePlainLimit := by
  have hbits := fromMetadata_bits hw
  refine ⟨?_, ?_, ⟨responseTo w, read_parameters w, fun zip hzip => ⟨?_, ?_⟩⟩, fun _ => ⟨?_, ?_⟩, fun _ => ⟨?_, ?_⟩⟩
  · exact round_trip_request hc hbits hk hs iv (by decide) (by decide)
  · exact round_trip_request hc hbits hk hs iv (by decide) (by decide)
  · exact round_trip_response hc hbits hzip hs iv (by decide) (by decide)
  · exact round_trip_response hc hbits hzip hs iv (by decide) (by decide)
  · exact limited_decryptMessage _ _ _ _ _
  · exact limited_decryptMessage _ _ _ _ _
  · exact limited_decryptMessage _ _ _ _ _
  · exact limited_decryptMessage _ _ _ _ _

/-- A key that a wallet made for itself is a public key. -/
theorem publicJwk_own (hc : Correct Secret) (s : Secret) {kid : String} (h : ¬(kid = "" ∨ kid.utf8ByteSize > 128)) :
    EncryptionKey.publicJwk ⟨(fromPoint (point s)).kty, (fromPoint (point s)).crv, (fromPoint (point s)).x, (fromPoint (point s)).y,
      "ECDH-ES", some kid, some "enc", none, []⟩ = .ok (fromPoint (point s)) := by
  have hkey := verifyingKey_fromPoint hc s
  unfold EncryptionKey.publicJwk EncryptionKey.jwk
  dsimp only
  rw [hkey]
  simp [denyIf, h, Except.mapError]

end

/-! ## A small instance -/

namespace Sample

abbrev Scalar := Vector UInt8 32

def Header.read : Value → Option Header
  | .obj ms => do
    let alg ← (ms.lookup "alg").bind Value.asStr
    let enc ← (ms.lookup "enc").bind Value.asStr
    let kid ← optional Value.asStr ms "kid"
    let epk ← ms.lookup "epk"
    let kty ← (Wallet.index epk "kty").asStr
    let crv ← (Wallet.index epk "crv").asStr
    let x ← (Wallet.index epk "x").asStr
    let y ← (Wallet.index epk "y").asStr
    let apu ← optional Value.asStr ms "apu"
    let apv ← optional Value.asStr ms "apv"
    let extra := ms.filter fun m => m.1 ∉ ["alg", "enc", "kid", "epk", "apu", "apv"]
    return { alg, enc, kid, epk := ⟨kty, crv, x, y⟩, apu, apv, extra }
  | _ => none

/-- A tag over all that a cipher is given. -/
def tagOf (key iv aad msg : Bytes) : Bytes := (Sha.sha256 (key ++ iv ++ aad ++ msg)).take 16

instance : Jose Scalar where
  secretFromSlice bs := if h : bs.toArray.size = 32 then some ⟨bs.toArray, h⟩ else none
  point s := 4 :: s.toList ++ s.toList
  onCurve bs := bs.length = 65
  diffieHellman s p := List.zipWith (· ^^^ ·) s.toList ((p.drop 1).take 32)
  encrypt key iv aad msg := some (msg ++ tagOf key iv aad msg)
  decrypt key iv aad c :=
    let msg := c.take (c.length - 16)
    if c.drop (c.length - 16) = tagOf key iv aad msg then some msg else none
  compress msg := msg
  decompress bs room :=
    if bs.length ≤ room then (true, bs.length, Vector.ofFn fun i => bs.getD i 0, bs.length) else (false, 0, Vector.replicate room 0, 0)
  readHeader bs := ((Text.utf8 bs).bind Json.parse).bind Header.read

theorem read_header (recipient : ResponseEncryption) (epk : PublicJwk) :
    Header.read (headerValue recipient epk) = some (headerOf recipient epk) := by
  unfold headerValue headerOf Header.read
  cases recipient.jwk.kid <;> cases recipient.zip <;>
    simp [optional, List.lookup, Value.asStr, Wallet.index, PublicJwk.json]

theorem correct : Correct Scalar where
  point s := by
    refine ⟨?_, s.toList, s.toList, Vector.length_toList, Vector.length_toList, rfl⟩
    simp [point, onCurve]
  agreement s t := by
    have hx : ∀ v : Scalar, ((Jose.point v).drop 1).take 32 = v.toList := fun v => List.take_left' Vector.length_toList
    change List.zipWith _ s.toList (((Jose.point t).drop 1).take 32) = List.zipWith _ t.toList (((Jose.point s).drop 1).take 32)
    rw [hx, hx, List.zipWith_comm]
    simp only [UInt8.xor_comm]
  cipher := by
    intro key iv aad msg _ _ _
    have htag : (tagOf key iv aad msg).length = 16 := rfl
    have hlen : (msg ++ tagOf key iv aad msg).length - 16 = msg.length := by
      rw [List.length_append, htag, Nat.add_sub_cancel]
    refine ⟨_, rfl, by rw [List.length_append, htag], ?_⟩
    change (if (msg ++ tagOf key iv aad msg).drop _ = tagOf key iv aad ((msg ++ tagOf key iv aad msg).take _) then
      some ((msg ++ tagOf key iv aad msg).take _) else none) = some msg
    rw [hlen, List.take_left, List.drop_left, if_pos rfl]
  stream := by
    intro msg room h
    refine ⟨Vector.ofFn fun i => msg.getD i 0, if_pos h, ?_⟩
    refine List.ext_getElem (by simpa using h) fun i h1 h2 => ?_
    simp [h2]
  compressed msg := by
    have hle : msg.length ≤ 128 + msg.length + (msg.length / (31 * 1024) + 1) * 5 := by omega
    exact Nat.le_trans hle (Nat.le_max_right _ _)
  header recipient epk := by
    change ((Text.utf8 _).bind Json.parse).bind Header.read = _
    rw [Text.utf8_bytes, Option.bind_some, parse_render, Option.bind_some, read_header]

def ownKey (s : Scalar) (kid : String) : EncryptionKey :=
  ⟨(fromPoint (point s)).kty, (fromPoint (point s)).crv, (fromPoint (point s)).x, (fromPoint (point s)).y, "ECDH-ES", some kid, some "enc", none, []⟩

def issuer : RequestKey Scalar := ⟨Vector.replicate 32 1, ownKey (Vector.replicate 32 1) "issuer", publicJwk_own correct _ (by decide)⟩

def metadata : Value :=
  .obj [("credential_request_encryption", .obj [("encryption_required", .bool true), ("enc_values_supported", .arr [.str "A256GCM"]),
      ("jwks", .obj [("keys", .arr [issuer.jwk.metadata])])]),
    ("credential_response_encryption", .obj [("alg_values_supported", .arr [.str "ECDH-ES"]), ("enc_values_supported", .arr [.str "A256GCM"]),
      ("encryption_required", .bool true), ("zip_values_supported", .arr [.str "DEF"])])]

def wallet : WalletEncryption Scalar :=
  ⟨⟨Vector.replicate 32 2, ownKey (Vector.replicate 32 2) "wallet", publicJwk_own correct _ (by decide)⟩, published issuer.jwk, "A256GCM", true⟩

theorem readKeys_sample : WalletEncryption.readKeys [] [issuer.jwk.metadata] = .ok [published issuer.jwk] := by
  rw [WalletEncryption.readKeys, read_metadata, orElse, ok_bind, publicJwk_published issuer.matching]
  rfl

theorem fromMetadata_sample : WalletEncryption.fromMetadata metadata (Vector.replicate 32 2) "wallet" = .ok (some wallet) := by
  have hother : ¬(published issuer.jwk).publicJwk = .ok (fromPoint (point (Vector.replicate 32 2 : Scalar))) := by
    rw [publicJwk_published issuer.matching]
    decide +kernel
  have hof : WalletEncryption.ofMetadata (Wallet.index metadata "credential_request_encryption")
      (Wallet.index metadata "credential_response_encryption") (Vector.replicate 32 2) "wallet" = .ok wallet := by
    have hchoose : WalletEncryption.choose (Wallet.index metadata "credential_request_encryption")
        (Wallet.index metadata "credential_response_encryption") = some "A256GCM" := by decide +kernel
    have hkeys : Wallet.index (Wallet.index (Wallet.index metadata "credential_request_encryption") "jwks") "keys" =
        .arr [issuer.jwk.metadata] := rfl
    have hseed : secretFromSlice (Vector.replicate 32 (2 : UInt8)).toList = some (Vector.replicate 32 2) := rfl
    unfold WalletEncryption.ofMetadata
    rw [denyIf, if_neg (by decide), ok_bind, denyIf, if_neg (by decide), ok_bind, hchoose, orElse, ok_bind, hkeys]
    dsimp only
    rw [denyIf, if_neg (by decide), ok_bind, readKeys_sample, ok_bind, List.head?_cons, orElse, ok_bind, hseed, orElse, ok_bind]
    refine (dif_pos wallet.recipient.matching).trans ?_
    rw [denyIf, if_neg hother]
    rfl
  change (do
    let wallet ← WalletEncryption.ofMetadata (Wallet.index metadata "credential_request_encryption")
      (Wallet.index metadata "credential_response_encryption") (Vector.replicate 32 2) "wallet"
    return some wallet) = _
  rw [hof]
  rfl

end Sample

/-- With the samples every request and response arrives. -/
theorem messages_arrive_sample : ∃ compact, compact.utf8ByteSize ≤ responseWireLimit ∧
    encryptResponse [1, 2, 3] (responseTo Sample.wallet) (Vector.replicate 32 3) (Vector.replicate 12 4) = .ok compact ∧
    Sample.wallet.decryptResponse compact = .ok [1, 2, 3] := by
  have hk : EncryptionKey.read Sample.issuer.jwk.metadata = some Sample.wallet.request := read_metadata _
  have hs : secretFromSlice (Vector.replicate 32 (3 : UInt8)).toList = some (Vector.replicate 32 3) := rfl
  obtain ⟨-, -, ⟨r, hr, h⟩, -⟩ := messages_arrive Sample.correct Sample.fromMetadata_sample hk hs (Vector.replicate 12 4)
  rw [read_parameters] at hr
  cases hr
  obtain ⟨compact, hsend, hsize, hreceive⟩ := (h _ (.inr rfl)).1 [1, 2, 3] _ rfl (by decide)
  exact ⟨compact, hsize, hsend, hreceive⟩

end Mikaki.Identity.Encryption
