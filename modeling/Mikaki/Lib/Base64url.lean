import Mikaki.Lib.Text

/-!
# Base64url without padding

Three bytes are four letters; one or two bytes at the end are two or three, and
the bits that are left over are zero. A text that is decoded is the encoding of
its bytes, so that no two texts have the same bytes.
-/

namespace Base64url

/-- The letter of six bits. -/
def letter (n : Nat) : Char :=
  if n < 26 then Char.ofNat (65 + n)
  else if n < 52 then Char.ofNat (71 + n)
  else if n < 62 then Char.ofNat (n - 4)
  else if n = 62 then '-' else '_'

def index (c : Char) : Option Nat :=
  if c.isUpper then some (c.toNat - 65)
  else if c.isLower then some (c.toNat - 71)
  else if c.isDigit then some (c.toNat + 4)
  else if c = '-' then some 62
  else if c = '_' then some 63
  else none

def chars : List UInt8 → List Char
  | [] => []
  | [a] => [letter (a.toNat / 4), letter (a.toNat % 4 * 16)]
  | [a, b] => [letter (a.toNat / 4), letter (a.toNat % 4 * 16 + b.toNat / 16), letter (b.toNat % 16 * 4)]
  | a :: b :: c :: bytes =>
    letter (a.toNat / 4) :: letter (a.toNat % 4 * 16 + b.toNat / 16) :: letter (b.toNat % 16 * 4 + c.toNat / 64) ::
      letter (c.toNat % 64) :: chars bytes

def bytes : List Char → Option (List UInt8)
  | [] => some []
  | [_] => none
  | [a, b] => do
    let a ← index a
    let b ← index b
    if b % 16 = 0 then some [UInt8.ofNat (a * 4 + b / 16)] else none
  | [a, b, c] => do
    let a ← index a
    let b ← index b
    let c ← index c
    if c % 4 = 0 then some [UInt8.ofNat (a * 4 + b / 16), UInt8.ofNat (b % 16 * 16 + c / 4)] else none
  | a :: b :: c :: d :: cs => do
    let a ← index a
    let b ← index b
    let c ← index c
    let d ← index d
    let rest ← bytes cs
    some (UInt8.ofNat (a * 4 + b / 16) :: UInt8.ofNat (b % 16 * 16 + c / 4) :: UInt8.ofNat (c % 4 * 64 + d) :: rest)

def encode (bs : List UInt8) : String := String.ofList (chars bs)

def decode (s : String) : Option (List UInt8) := bytes s.toList

/-! ## Letters -/

def urlSafe (c : Char) : Bool := c.isAlphanum || c == '-' || c == '_'

theorem letter_spec : ∀ n < 64, index (letter n) = some n ∧ urlSafe (letter n) = true := by decide

theorem index_letter {n : Nat} (h : n < 64) : index (letter n) = some n := (letter_spec n h).1

theorem urlSafe_letter {n : Nat} (h : n < 64) : urlSafe (letter n) = true := (letter_spec n h).2

theorem letter_index {c : Char} {n : Nat} (h : index c = some n) : n < 64 ∧ letter n = c := by
  have hc : c = Char.ofNat c.toNat := (Char.ofNat_toNat c).symm
  unfold index at h
  by_cases hu : c.isUpper = true
  · rw [if_pos hu] at h
    cases h
    have hr : 65 ≤ c.toNat ∧ c.toNat ≤ 90 := by
      simpa [Char.isUpper, UInt32.le_iff_toNat_le] using hu
    refine ⟨by omega, ?_⟩
    rw [letter, if_pos (by omega), hc]
    congr 1
    rw [← hc]
    omega
  rw [if_neg hu] at h
  by_cases hl : c.isLower = true
  · rw [if_pos hl] at h
    cases h
    have hr : 97 ≤ c.toNat ∧ c.toNat ≤ 122 := by
      simpa [Char.isLower, UInt32.le_iff_toNat_le] using hl
    refine ⟨by omega, ?_⟩
    rw [letter, if_neg (by omega), if_pos (by omega), hc]
    congr 1
    rw [← hc]
    omega
  rw [if_neg hl] at h
  by_cases hd : c.isDigit = true
  · rw [if_pos hd] at h
    cases h
    have hr : 48 ≤ c.toNat ∧ c.toNat ≤ 57 := by
      simpa [Char.isDigit, UInt32.le_iff_toNat_le] using hd
    refine ⟨by omega, ?_⟩
    rw [letter, if_neg (by omega), if_neg (by omega), if_pos (by omega), hc]
    congr 1
    rw [← hc]
    omega
  rw [if_neg hd] at h
  by_cases hm : c = '-'
  · rw [if_pos hm] at h
    cases h
    exact ⟨by decide, hm.symm⟩
  rw [if_neg hm] at h
  by_cases hs : c = '_'
  · rw [if_pos hs] at h
    cases h
    exact ⟨by decide, hs.symm⟩
  rw [if_neg hs] at h
  cases h

/-! ## Texts -/

theorem bytes_chars (bs : List UInt8) : bytes (chars bs) = some bs := by
  induction bs using chars.induct with
  | case1 => rfl
  | case2 a =>
    have ha := a.toNat_lt
    simp only [chars, bytes, index_letter (show a.toNat / 4 < 64 by omega), index_letter (show a.toNat % 4 * 16 < 64 by omega)]
    simp only [Option.bind_eq_bind, Option.bind_some, show a.toNat % 4 * 16 % 16 = 0 by omega, if_true]
    rw [show a.toNat / 4 * 4 + a.toNat % 4 * 16 / 16 = a.toNat by omega, UInt8.ofNat_toNat]
  | case3 a b =>
    have ha := a.toNat_lt
    have hb := b.toNat_lt
    simp only [chars, bytes, index_letter (show a.toNat / 4 < 64 by omega),
      index_letter (show a.toNat % 4 * 16 + b.toNat / 16 < 64 by omega), index_letter (show b.toNat % 16 * 4 < 64 by omega)]
    simp only [Option.bind_eq_bind, Option.bind_some, show b.toNat % 16 * 4 % 4 = 0 by omega, if_true]
    rw [show a.toNat / 4 * 4 + (a.toNat % 4 * 16 + b.toNat / 16) / 16 = a.toNat by omega,
      show (a.toNat % 4 * 16 + b.toNat / 16) % 16 * 16 + b.toNat % 16 * 4 / 4 = b.toNat by omega, UInt8.ofNat_toNat,
      UInt8.ofNat_toNat]
  | case4 a b c bs ih =>
    have ha := a.toNat_lt
    have hb := b.toNat_lt
    have hc := c.toNat_lt
    simp only [chars, bytes, index_letter (show a.toNat / 4 < 64 by omega),
      index_letter (show a.toNat % 4 * 16 + b.toNat / 16 < 64 by omega),
      index_letter (show b.toNat % 16 * 4 + c.toNat / 64 < 64 by omega), index_letter (show c.toNat % 64 < 64 by omega), ih]
    simp only [Option.bind_eq_bind, Option.bind_some]
    rw [show a.toNat / 4 * 4 + (a.toNat % 4 * 16 + b.toNat / 16) / 16 = a.toNat by omega,
      show (a.toNat % 4 * 16 + b.toNat / 16) % 16 * 16 + (b.toNat % 16 * 4 + c.toNat / 64) / 4 = b.toNat by omega,
      show (b.toNat % 16 * 4 + c.toNat / 64) % 4 * 64 + c.toNat % 64 = c.toNat by omega, UInt8.ofNat_toNat, UInt8.ofNat_toNat,
      UInt8.ofNat_toNat]

theorem decode_encode (bs : List UInt8) : decode (encode bs) = some bs := by
  rw [decode, encode, String.toList_ofList, bytes_chars]

theorem urlSafe_chars (bs : List UInt8) : ∀ c ∈ chars bs, urlSafe c = true := by
  induction bs using chars.induct with
  | case1 => simp [chars]
  | case2 a =>
    have ha := a.toNat_lt
    simp only [chars, List.forall_mem_cons]
    exact ⟨urlSafe_letter (by omega), urlSafe_letter (by omega), by simp⟩
  | case3 a b =>
    have ha := a.toNat_lt
    have hb := b.toNat_lt
    simp only [chars, List.forall_mem_cons]
    exact ⟨urlSafe_letter (by omega), urlSafe_letter (by omega), urlSafe_letter (by omega), by simp⟩
  | case4 a b c bs ih =>
    have ha := a.toNat_lt
    have hb := b.toNat_lt
    have hc := c.toNat_lt
    simp only [chars, List.forall_mem_cons]
    exact ⟨urlSafe_letter (by omega), urlSafe_letter (by omega), urlSafe_letter (by omega), urlSafe_letter (by omega), ih⟩

theorem length_chars (bs : List UInt8) : (chars bs).length = (4 * bs.length + 2) / 3 := by
  induction bs using chars.induct with
  | case1 => rfl
  | case2 a => simp [chars]
  | case3 a b => simp [chars]
  | case4 a b c bs ih =>
    simp only [chars, List.length_cons, ih]
    omega

theorem toNat_ofNat {n : Nat} (h : n < 256) : (UInt8.ofNat n).toNat = n := UInt8.toNat_ofNat_of_lt' h

/-- No two texts have the same bytes. -/
theorem chars_bytes {cs : List Char} {bs : List UInt8} (h : bytes cs = some bs) : chars bs = cs := by
  induction cs using bytes.induct generalizing bs with
  | case1 =>
    cases h
    rfl
  | case2 => cases h
  | case3 a b =>
    simp only [bytes, Option.bind_eq_bind, Option.bind_eq_some_iff] at h
    obtain ⟨m, hm, n, hn, h⟩ := h
    obtain ⟨hm, rfl⟩ := letter_index hm
    obtain ⟨hn, rfl⟩ := letter_index hn
    split at h
    · cases h
      rw [chars, toNat_ofNat (by omega)]
      rw [show (m * 4 + n / 16) / 4 = m by omega, show (m * 4 + n / 16) % 4 * 16 = n by omega]
    · cases h
  | case4 a b c =>
    simp only [bytes, Option.bind_eq_bind, Option.bind_eq_some_iff] at h
    obtain ⟨m, hm, n, hn, k, hk, h⟩ := h
    obtain ⟨hm, rfl⟩ := letter_index hm
    obtain ⟨hn, rfl⟩ := letter_index hn
    obtain ⟨hk, rfl⟩ := letter_index hk
    split at h
    · cases h
      rw [chars, toNat_ofNat (by omega), toNat_ofNat (by omega)]
      rw [show (m * 4 + n / 16) / 4 = m by omega, show (m * 4 + n / 16) % 4 * 16 + (n % 16 * 16 + k / 4) / 16 = n by omega,
        show (n % 16 * 16 + k / 4) % 16 * 4 = k by omega]
    · cases h
  | case5 a b c d cs ih =>
    simp only [bytes, Option.bind_eq_bind, Option.bind_eq_some_iff] at h
    obtain ⟨m, hm, n, hn, k, hk, l, hl, rest, hrest, h⟩ := h
    obtain ⟨hm, rfl⟩ := letter_index hm
    obtain ⟨hn, rfl⟩ := letter_index hn
    obtain ⟨hk, rfl⟩ := letter_index hk
    obtain ⟨hl, rfl⟩ := letter_index hl
    cases h
    rw [chars, ih hrest, toNat_ofNat (by omega), toNat_ofNat (by omega),
      toNat_ofNat (by omega)]
    rw [show (m * 4 + n / 16) / 4 = m by omega, show (m * 4 + n / 16) % 4 * 16 + (n % 16 * 16 + k / 4) / 16 = n by omega,
      show (n % 16 * 16 + k / 4) % 16 * 4 + (k % 4 * 64 + l) / 64 = k by omega, show (k % 4 * 64 + l) % 64 = l by omega]

theorem encode_decode {s : String} {bs : List UInt8} (h : decode s = some bs) : encode bs = s := by
  rw [encode, chars_bytes h, String.ofList_toList]

theorem urlSafe_range {c : Char} (h : urlSafe c = true) : 45 ≤ c.toNat ∧ c.toNat ≤ 122 := by
  simp only [urlSafe, Char.isAlphanum, Char.isAlpha, Char.isUpper, Char.isLower, Char.isDigit, Bool.or_eq_true,
    Bool.and_eq_true, decide_eq_true_eq, beq_iff_eq, ge_iff_le, UInt32.le_iff_toNat_le] at h
  have e : c.val.toNat = c.toNat := rfl
  obtain (((h | h) | h) | rfl) | rfl := h
  · exact ⟨Nat.le_trans (by decide) h.1, Nat.le_trans h.2 (by decide)⟩
  · exact ⟨Nat.le_trans (by decide) h.1, Nat.le_trans h.2 (by decide)⟩
  · exact ⟨Nat.le_trans (by decide) h.1, Nat.le_trans h.2 (by decide)⟩
  · decide
  · decide

theorem size_encode (bs : List UInt8) : (encode bs).utf8ByteSize = (4 * bs.length + 2) / 3 := by
  have h : ∀ c ∈ chars bs, c.utf8Size = 1 := by
    intro c hc
    rw [Char.utf8Size_eq_one_iff, UInt32.le_iff_toNat_le]
    exact Nat.le_trans (urlSafe_range (urlSafe_chars bs c hc)).2 (by decide)
  rw [encode, Text.size_ofList, List.map_congr_left h, ← length_chars]
  simp

end Base64url
