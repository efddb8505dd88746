import Mikaki.Lib.Base64url
import Mikaki.Lib.Checks
import Mikaki.Lib.Sha

/-!
# User codes

A device is shown eight letters with a hyphen in the middle. They are looked up
by a keyed hash of the letters without the hyphen and in upper case.
-/

namespace Mikaki.Oidc.UserCode

open Checks

def userAlphabet : List UInt8 := Text.bytes "23456789ABCDEFGHJKLMNPQRSTUVWXYZ"

def userIndexDomain : List UInt8 := Text.bytes "mikaki-device-user-code-v1" ++ [0]

def maxDeviceCodeLifetime : Nat := 600

inductive CodeIssueError where
  | invalidLifetime
  | entropyUnavailable
  deriving DecidableEq

structure DeviceCodes where
  deviceCode : String
  userCode : String
  deviceDigest : String
  userIndex : String
  expiresAt : Nat
  deriving DecidableEq

def toAsciiUppercase (b : UInt8) : UInt8 := if 97 ≤ b ∧ b ≤ 122 then b - 32 else b

def normalise (input : String) : Option (List UInt8) :=
  let bytes := Text.bytes input
  if bytes.length ≠ 8 ∧ ¬(bytes.length = 9 ∧ bytes[4]? = some 45) then none
  else
    -- the loop skips the hyphen of nine bytes
    (if bytes.length = 9 then bytes.eraseIdx 4 else bytes).mapM fun byte =>
      if toAsciiUppercase byte ∈ userAlphabet then some (toAsciiUppercase byte) else none

section
/- HMAC-SHA256 under a key. -/
variable (mac : List UInt8 → List UInt8 → List UInt8)

def userCodeIndex (input : String) (indexKey : List UInt8) : Option String :=
  (normalise input).map fun normalized => Base64url.encode (mac indexKey (userIndexDomain ++ normalized))

/-- What the random source fills two buffers with, if it does. -/
structure Draw where
  secret : Option { bs : List UInt8 // bs.length = 32 }
  human : Option { bs : List UInt8 // bs.length = 8 }

def letter (byte : UInt8) : UInt8 := userAlphabet.getD (byte &&& 31).toNat 0

def userCode (human : List UInt8) : String :=
  String.ofList (human.zipIdx.flatMap fun (byte, index) => (if index = 4 then ['-'] else []) ++ [Char.ofNat (letter byte).toNat])

/-- A code without an index would end the program, as `none` says here. -/
def issueDeviceCodes (random : Draw) (indexKey : List UInt8) (now lifetimeSeconds : Nat) : Except CodeIssueError (Option DeviceCodes) :=
  if lifetimeSeconds = 0 ∨ maxDeviceCodeLifetime < lifetimeSeconds ∨ 2 ^ 64 ≤ now + lifetimeSeconds then .error .invalidLifetime
  else
    match random.secret, random.human with
    | some secret, some human =>
      let code := userCode human.val
      .ok ((userCodeIndex mac code indexKey).map fun userIndex =>
        { deviceCode := Base64url.encode secret.val, userCode := code, deviceDigest := Base64url.encode (Sha.sha256 secret.val), userIndex
          expiresAt := now + lifetimeSeconds })
    | _, _ => .error .entropyUnavailable

end

/-! ## Canonical codes -/

/-- Without hyphens, and in upper case. -/
def canonical (code : String) : List UInt8 := ((Text.bytes code).filter (· ≠ 45)).map toAsciiUppercase

/-- The letters of a code as they are shown. -/
def display (code : List UInt8) : List UInt8 := code.take 4 ++ 45 :: code.drop 4

theorem hyphen_not_letter : toAsciiUppercase 45 ∉ userAlphabet := by decide +kernel

theorem mapM_letters {bs code : List UInt8}
    (h : bs.mapM (fun b => if toAsciiUppercase b ∈ userAlphabet then some (toAsciiUppercase b) else none) = some code) :
    bs.map toAsciiUppercase = code ∧ bs.filter (· ≠ 45) = bs := by
  induction bs generalizing code with
  | nil =>
    cases h
    exact ⟨rfl, rfl⟩
  | cons b bs ih =>
    simp only [List.mapM_cons, Option.bind_eq_bind, Option.bind_eq_some_iff, Option.ite_none_right_eq_some, Option.pure_def,
      Option.some.injEq] at h
    obtain ⟨c, ⟨hb, rfl⟩, cs, hcs, rfl⟩ := h
    obtain ⟨hm, hf⟩ := ih hcs
    have hne : b ≠ 45 := fun e => hyphen_not_letter (e ▸ hb)
    exact ⟨by rw [List.map_cons, hm], by rw [List.filter_cons_of_pos (by simpa using hne), hf]⟩

/-- A hyphen that is skipped is one that is removed. -/
theorem filter_eraseIdx {bs : List UInt8} (h : bs[4]? = some 45) : (bs.eraseIdx 4).filter (· ≠ 45) = bs.filter (· ≠ 45) := by
  obtain ⟨hl, he⟩ := List.getElem?_eq_some_iff.mp h
  have hd : bs = bs.take 4 ++ 45 :: bs.drop 5 := by
    rw [← he, List.getElem_cons_drop hl, List.take_append_drop]
  rw [List.eraseIdx_eq_take_drop_succ, List.filter_append]
  conv => rhs; rw [hd]
  rw [List.filter_append, List.filter_cons_of_neg (by decide)]

/-- A code that is accepted is looked up by its canonical form. -/
theorem normalise_canonical {input : String} {code : List UInt8} (h : normalise input = some code) : code = canonical input := by
  unfold normalise at h
  dsimp only at h
  split at h
  · cases h
  · rename_i hc
    rw [canonical]
    split at h
    · rename_i hl
      have hh : (Text.bytes input)[4]? = some 45 := by
        by_contra hne
        exact hc ⟨by omega, fun hb => hne hb.2⟩
      obtain ⟨hm, hf⟩ := mapM_letters h
      rw [← filter_eraseIdx hh, hf, hm]
    · obtain ⟨hm, hf⟩ := mapM_letters h
      rw [hf, hm]

/-! ## Issued codes -/

theorem letter_spec (b : UInt8) : letter b ∈ userAlphabet ∧ toAsciiUppercase (letter b) = letter b ∧ (letter b).toNat < 128 := by
  have h : ∀ n < 256, letter (UInt8.ofNat n) ∈ userAlphabet ∧ toAsciiUppercase (letter (UInt8.ofNat n)) = letter (UInt8.ofNat n) ∧
      (letter (UInt8.ofNat n)).toNat < 128 := by decide +kernel
  have hb := h b.toNat b.toNat_lt
  rwa [UInt8.ofNat_toNat] at hb

theorem letter_bytes (b : UInt8) : String.utf8EncodeChar (Char.ofNat (letter b).toNat) = [letter b] := by
  have hl := (letter_spec b).2.2
  have ascii : ∀ n < 128, (Char.ofNat n).toNat = n := by decide
  have ht := ascii _ hl
  rw [Text.utf8EncodeChar_ascii (by rw [ht]; exact hl), ht, UInt8.ofNat_toNat]

theorem bytes_userCode {human : List UInt8} (h : human.length = 8) : Text.bytes (userCode human) = display (human.map letter) := by
  match human with
  | [a, b, c, d, e, f, g, i] =>
    have hh : String.utf8EncodeChar '-' = [45] := by decide
    rw [userCode, Text.bytes_ofList]
    simp [letter_bytes, display, hh]

theorem mapM_letter {bs : List UInt8} (h : ∀ b ∈ bs, b ∈ userAlphabet ∧ toAsciiUppercase b = b) :
    bs.mapM (fun b => if toAsciiUppercase b ∈ userAlphabet then some (toAsciiUppercase b) else none) = some bs := by
  induction bs with
  | nil => rfl
  | cons b bs ih =>
    obtain ⟨hb, hu⟩ := h b List.mem_cons_self
    rw [List.mapM_cons, ih fun x hx => h x (List.mem_cons_of_mem _ hx), hu, if_pos hb]
    rfl

/-- An issued code is accepted, and its letters are the ones that were drawn. -/
theorem normalise_userCode {human : List UInt8} (h : human.length = 8) : normalise (userCode human) = some (human.map letter) := by
  have hl : (human.map letter).length = 8 := by rw [List.length_map, h]
  have hb := bytes_userCode h
  have hlen : (Text.bytes (userCode human)).length = 9 := by
    rw [hb, display, List.length_append, List.length_take, List.length_cons, List.length_drop, hl]
    rfl
  have hhead : ((human.map letter).take 4).length = 4 := by rw [List.length_take, hl]; rfl
  have hat : (Text.bytes (userCode human))[4]? = some 45 := by
    rw [hb, display, List.getElem?_append_right (Nat.le_of_eq hhead), hhead]
    rfl
  have herase : (Text.bytes (userCode human)).eraseIdx 4 = human.map letter := by
    rw [hb, display, List.eraseIdx_append_of_length_le (Nat.le_of_eq hhead), hhead]
    exact List.take_append_drop 4 _
  unfold normalise
  dsimp only
  rw [if_neg fun hc => hc.2 ⟨hlen, hat⟩, if_pos hlen, herase]
  refine mapM_letter fun b hm => ?_
  obtain ⟨x, -, rfl⟩ := List.mem_map.mp hm
  exact ⟨(letter_spec x).1, (letter_spec x).2.1⟩

section
variable (mac : List UInt8 → List UInt8 → List UInt8) (indexKey : List UInt8)

/-- No two codes have the same hash. -/
def Injective : Prop := ∀ a b : List UInt8, a.length = 8 → b.length = 8 →
  mac indexKey (userIndexDomain ++ a) = mac indexKey (userIndexDomain ++ b) → a = b

theorem length_normalise {input : String} {code : List UInt8} (h : normalise input = some code) : code.length = 8 := by
  unfold normalise at h
  dsimp only at h
  split at h
  · cases h
  · rename_i hc
    have hm := (mapM_letters h).1
    rw [← hm, List.length_map]
    split
    · rename_i hl
      rw [List.length_eraseIdx, if_pos (by omega), hl]
    · rename_i hl
      by_contra hne
      exact hc ⟨hne, fun hb => hl hb.1⟩

theorem encode_inj {a b : List UInt8} (h : Base64url.encode a = Base64url.encode b) : a = b := by
  have := Base64url.decode_encode a
  rw [h, Base64url.decode_encode] at this
  exact (Option.some.inj this).symm

/-- Two accepted texts have one index if they are one code up to hyphens and case. A code is issued with its index, is accepted, and
is shown as its canonical form is. -/
theorem user_codes (hinj : Injective mac indexKey) :
    (∀ s t i j : String, userCodeIndex mac s indexKey = some i → userCodeIndex mac t indexKey = some j →
      (i = j ↔ canonical s = canonical t)) ∧
    ∀ (random : Draw) (now lifetimeSeconds : Nat) (issued : Option DeviceCodes),
      issueDeviceCodes mac random indexKey now lifetimeSeconds = .ok issued → ∃ codes, issued = some codes ∧
        userCodeIndex mac codes.userCode indexKey = some codes.userIndex ∧ normalise codes.userCode = some (canonical codes.userCode) ∧
        display (canonical codes.userCode) = Text.bytes codes.userCode := by
  constructor
  · intro s t i j hs ht
    simp only [userCodeIndex, Option.map_eq_some_iff] at hs ht
    obtain ⟨a, ha, rfl⟩ := hs
    obtain ⟨b, hb, rfl⟩ := ht
    rw [← normalise_canonical ha, ← normalise_canonical hb]
    constructor
    · intro h
      exact hinj a b (length_normalise ha) (length_normalise hb) (encode_inj h)
    · intro h
      rw [h]
  · intro random now lifetimeSeconds issued h
    unfold issueDeviceCodes at h
    split at h
    · cases h
    split at h
    · rename_i secret human _ _
      have hn := normalise_userCode human.property
      have hc := normalise_canonical hn
      cases h
      refine ⟨_, by rw [userCodeIndex, hn]; rfl, ?_, ?_, ?_⟩
      · rw [userCodeIndex, hn]
        rfl
      · rw [hn, hc]
      · rw [← hc, ← bytes_userCode human.property]
    · cases h

end

/-- The hash of one code, and another injective function elsewhere. -/
def sampleMac (_ message : List UInt8) : List UInt8 :=
  if message = userIndexDomain ++ Text.bytes "ABCD2345" then
    [111, 30, 187, 243, 85, 219, 57, 142, 239, 220, 58, 178, 59, 72, 242, 69, 212, 244, 108, 83, 13, 250, 72, 119, 30, 9, 113, 182, 7, 173,
      66, 211]
  else message

theorem sampleMac_injective (indexKey : List UInt8) : Injective sampleMac indexKey := by
  have hdomain : userIndexDomain.length = 27 := by decide +kernel
  intro a b ha hb h
  unfold sampleMac at h
  split at h <;> split at h
  · rename_i h₁ h₂
    rw [← h₂] at h₁
    exact List.append_cancel_left h₁
  · have := congrArg List.length h
    rw [List.length_append, hb, hdomain] at this
    cases this
  · have := congrArg List.length h
    rw [List.length_append, ha, hdomain] at this
    cases this
  · exact List.append_cancel_left h

theorem user_codes_sample : canonical "abcd-2345" = canonical "ABCD2345" :=
  ((user_codes sampleMac (List.replicate 32 7) (sampleMac_injective _)).1 "abcd-2345" "ABCD2345"
    "bx6781XbOY7v3DqyO0jyRdT0bFMN-kh3HglxtgetQtM" "bx6781XbOY7v3DqyO0jyRdT0bFMN-kh3HglxtgetQtM" (by decide +kernel)
    (by decide +kernel)).mp rfl

end Mikaki.Oidc.UserCode
