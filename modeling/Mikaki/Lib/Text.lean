import Mathlib

/-!
# UTF-8 text

`bytes` is the UTF-8 encoding of a text and `utf8ByteSize` its length. Checks
on bytes and checks on characters meet at the ASCII characters: a byte below
128 is a character of the text, and the other way round.
-/

namespace Text

/-- The UTF-8 bytes of a text. -/
def bytes (s : String) : List UInt8 := s.toByteArray.data.toList

theorem bytes_inj {s t : String} (h : bytes s = bytes t) : s = t := by
  refine String.toByteArray_inj.mp ?_
  have : s.toByteArray.data = t.toByteArray.data := Array.toList_inj.mp h
  exact ByteArray.ext this

@[simp] theorem length_bytes (s : String) : (bytes s).length = s.utf8ByteSize := rfl

theorem bytes_ofList (l : List Char) : bytes (String.ofList l) = l.flatMap String.utf8EncodeChar := by
  simp [bytes, List.utf8Encode]

theorem bytes_eq (s : String) : bytes s = s.toList.flatMap String.utf8EncodeChar := by
  rw [← bytes_ofList, String.ofList_toList]

theorem size_ofList (l : List Char) : (String.ofList l).utf8ByteSize = (l.map Char.utf8Size).sum := by
  rw [← length_bytes, bytes_ofList, List.length_flatMap]
  simp

theorem size_eq (s : String) : s.utf8ByteSize = (s.toList.map Char.utf8Size).sum := by
  rw [← size_ofList, String.ofList_toList]

/-- The text of UTF-8 bytes. -/
def utf8 (bs : List UInt8) : Option String := String.fromUTF8? ⟨bs.toArray⟩

theorem bytes_utf8 {bs : List UInt8} {s : String} (h : utf8 bs = some s) : bytes s = bs := by
  unfold utf8 String.fromUTF8? at h
  split at h
  · cases h
    rfl
  · cases h

theorem utf8_bytes (s : String) : utf8 (bytes s) = some s := by
  have harr : (⟨(bytes s).toArray⟩ : ByteArray) = s.toByteArray := ByteArray.ext (Array.toArray_toList)
  rw [utf8, harr, String.fromUTF8?, dif_pos s.isValidUTF8]
  rfl

/-! ## Characters and bytes -/

theorem utf8EncodeChar_ascii {c : Char} (h : c.toNat < 128) : String.utf8EncodeChar c = [UInt8.ofNat c.toNat] := by
  have hs : c.utf8Size = 1 := by
    rw [Char.utf8Size_eq_one_iff, UInt32.le_iff_toNat_le]
    exact Nat.le_of_lt_succ h
  rw [String.utf8EncodeChar_eq_singleton hs]
  rfl

theorem bytes_ascii {cs : List Char} (h : ∀ c ∈ cs, c.toNat < 128) : bytes (String.ofList cs) = cs.map fun c => UInt8.ofNat c.toNat := by
  rw [bytes_ofList]
  induction cs with
  | nil => rfl
  | cons c cs ih =>
    obtain ⟨hc, hcs⟩ := List.forall_mem_cons.mp h
    rw [List.flatMap_cons, utf8EncodeChar_ascii hc, ih hcs]
    rfl

theorem size_ascii {s : String} (h : ∀ c ∈ s.toList, c.toNat < 128) : s.utf8ByteSize = s.toList.length := by
  rw [← length_bytes, ← String.ofList_toList (s := s), bytes_ascii h, List.length_map, String.toList_ofList]

/-- A byte below 128 is a character of its own. -/
theorem ascii_of_byte {c : Char} {b : UInt8} (hb : b ∈ String.utf8EncodeChar c) (h : b.toNat < 128) : c.toNat = b.toNat := by
  by_cases hc : c.toNat < 128
  · rw [utf8EncodeChar_ascii hc, List.mem_singleton] at hb
    rw [hb, UInt8.toNat_ofNat', Nat.mod_eq_of_lt (by omega)]
  · exfalso
    have hs := c.utf8Size_le_four
    have h1 : c.utf8Size ≠ 1 := fun e => hc <| by
      rw [Char.utf8Size_eq_one_iff, UInt32.le_iff_toNat_le] at e
      exact Nat.lt_succ_of_le e
    have h0 := c.utf8Size_pos
    have key (x : UInt8) {y : UInt8} (hy : 128 ≤ y.toNat) : b ≠ x ||| y := by
      rintro rfl
      rw [UInt8.toNat_or] at h
      have hle : y.toNat ≤ x.toNat ||| y.toNat := Nat.right_le_or
      omega
    have : c.utf8Size = 2 ∨ c.utf8Size = 3 ∨ c.utf8Size = 4 := by omega
    rcases this with h2 | h3 | h4
    · rw [String.utf8EncodeChar_eq_cons_cons h2] at hb
      simp only [List.mem_cons, List.not_mem_nil, or_false] at hb
      rcases hb with hb | hb
      · exact key _ (by decide) hb
      · exact key _ (by decide) hb
    · rw [String.utf8EncodeChar_eq_cons_cons_cons h3] at hb
      simp only [List.mem_cons, List.not_mem_nil, or_false] at hb
      rcases hb with hb | hb | hb
      · exact key _ (by decide) hb
      · exact key _ (by decide) hb
      · exact key _ (by decide) hb
    · rw [String.utf8EncodeChar_eq_cons_cons_cons_cons h4] at hb
      simp only [List.mem_cons, List.not_mem_nil, or_false] at hb
      rcases hb with hb | hb | hb | hb
      · exact key _ (by decide) hb
      · exact key _ (by decide) hb
      · exact key _ (by decide) hb
      · exact key _ (by decide) hb

/-- A character whose bytes are all below 128 is that one byte. -/
theorem ascii_of_bytes {c : Char} (h : ∀ b ∈ String.utf8EncodeChar c, b.toNat < 128) : c.toNat < 128 := by
  obtain ⟨b, hb⟩ := List.exists_mem_of_length_pos (by rw [String.length_utf8EncodeChar]; exact c.utf8Size_pos)
  rw [ascii_of_byte hb (h b hb)]
  exact h b hb

/-- A check of every byte that admits ASCII bytes only is a check of every character. -/
theorem forall_mem_of_bytes {p : UInt8 → Prop} {s : String} (ha : ∀ b, p b → b.toNat < 128)
    (h : ∀ b ∈ bytes s, p b) : ∀ c ∈ s.toList, c.toNat < 128 ∧ p (UInt8.ofNat c.toNat) := by
  intro c hc
  have hb : ∀ b ∈ String.utf8EncodeChar c, p b := fun b hb =>
    h b (by rw [bytes_eq]; exact List.mem_flatMap.mpr ⟨c, hc, hb⟩)
  have hlt := ascii_of_bytes fun b m => ha b (hb b m)
  exact ⟨hlt, hb _ (by rw [utf8EncodeChar_ascii hlt]; exact List.mem_cons_self ..)⟩

/-- A byte check that fails on no byte fails on no ASCII character. -/
theorem ascii_mem_bytes {s : String} {c : Char} (hc : c ∈ s.toList) (h : c.toNat < 128) :
    UInt8.ofNat c.toNat ∈ bytes s := by
  rw [bytes_eq]
  exact List.mem_flatMap.mpr ⟨c, hc, by rw [utf8EncodeChar_ascii h]; exact List.mem_cons_self ..⟩

/-- An ASCII character of the bytes is one of the text. -/
theorem mem_of_mem_bytes {c : Char} (hc : c.toNat < 128) {s : String} (h : UInt8.ofNat c.toNat ∈ bytes s) : c ∈ s.toList := by
  rw [bytes_eq] at h
  obtain ⟨d, hd, hb⟩ := List.mem_flatMap.mp h
  have hn : (UInt8.ofNat c.toNat).toNat = c.toNat := by
    rw [UInt8.toNat_ofNat', Nat.mod_eq_of_lt (by omega)]
  have he := ascii_of_byte hb (by rw [hn]; exact hc)
  rw [hn] at he
  exact Char.toNat_inj.mp he ▸ hd

theorem bytes_append (s t : String) : bytes (s ++ t) = bytes s ++ bytes t := by
  rw [bytes_eq, bytes_eq, bytes_eq, String.toList_append, List.flatMap_append]

/-! ## Character classes -/

/-- General category `Cc`. -/
def isControl (c : Char) : Bool := c.toNat < 32 || (127 ≤ c.toNat && c.toNat < 160)

/-- The Unicode property `White_Space`. -/
def isWhiteSpace (c : Char) : Bool :=
  (9 ≤ c.toNat && c.toNat ≤ 13) || c.toNat == 0x20 || c.toNat == 0x85 || c.toNat == 0xa0 || c.toNat == 0x1680 ||
    (0x2000 ≤ c.toNat && c.toNat ≤ 0x200a) || c.toNat == 0x2028 || c.toNat == 0x2029 || c.toNat == 0x202f ||
    c.toNat == 0x205f || c.toNat == 0x3000

def isLowerHex (b : UInt8) : Bool := (48 ≤ b && b ≤ 57) || (97 ≤ b && b ≤ 102)

def isDigit (b : UInt8) : Bool := 48 ≤ b && b ≤ 57

def isLower (b : UInt8) : Bool := 97 ≤ b && b ≤ 122

def isUpper (b : UInt8) : Bool := 65 ≤ b && b ≤ 90

def isAlphanumeric (b : UInt8) : Bool := isDigit b || isLower b || isUpper b

end Text
