import Mikaki.Work.Basic
import Mikaki.Lib.JsonSound

/-!
# What the shared checks admit

One lemma for each constructor and check says exactly when it succeeds. Hex and
identifiers are read back from what they print, and print nothing that a JSON
string has to escape.
-/

namespace Mikaki

open Checks

@[simp] theorem storedNumber_zero_ok {v : Nat} {x : Unit} : storedNumber v true = .ok x ↔ v ≤ maxStoredInteger := by
  simp [storedNumber]

@[simp] theorem storedNumber_ok {v : Nat} {x : Unit} :
    storedNumber v false = .ok x ↔ 0 < v ∧ v ≤ maxStoredInteger := by
  simp only [storedNumber, denyIf_eq_ok, true_and]
  omega

theorem stored_lt {v : Nat} (h : v ≤ maxStoredInteger) : v < 2 ^ 64 := by
  simp only [maxStoredInteger] at h; omega

theorem Id.parse_ok {v : String} {i : Id} : Id.parse v = .ok i ↔ i.text = v := by
  unfold Id.parse
  split
  · constructor
    · intro e; cases e; rfl
    · intro e; cases i; cases e; rfl
  · rename_i h
    exact ⟨fun e => (by cases e), fun e => absurd (e ▸ i.valid) h⟩

@[simp] theorem Id.parse_text (i : Id) : Id.parse i.text = .ok i := Id.parse_ok.mpr rfl

@[simp] theorem Id.check_ok {v : String} {x : Unit} : Id.check v = .ok x ↔ Id.shape v = true := by
  simp only [Id.check, bind_eq_ok, Id.parse_ok, pure_eq_ok]
  constructor
  · rintro ⟨i, rfl, -⟩
    exact i.valid
  · intro h
    exact ⟨⟨v, h⟩, rfl, trivial⟩

theorem Id.ext_text {i j : Id} (h : i.text = j.text) : i = j := by
  cases i; cases j; cases h; rfl

@[simp] theorem gitOid_ok {v w : String} :
    gitOid v = .ok w ↔ ((v.utf8ByteSize = 40 ∨ v.utf8ByteSize = 64) ∧ lowerHex v = true) ∧ v = w := by
  simp only [gitOid, check_bind_eq_ok, denyIf_eq_ok, pure_eq_ok]
  rw [not_or, Decidable.not_not, Bool.not_eq_false]

@[simp] theorem deadline_ok {now expires maximum : Nat} {x : Unit} : deadline now expires maximum = .ok x ↔
    now ≤ maxStoredInteger ∧ (0 < expires ∧ expires ≤ maxStoredInteger) ∧ now < expires ∧ expires - now ≤ maximum := by
  simp only [deadline, check_bind_eq_ok, storedNumber_zero_ok, storedNumber_ok, denyIf_eq_ok]
  omega

@[simp] theorem Environment.checkOwner_ok {e : Environment} {id : Id} {epoch : Nat} {x : Unit} :
    e.checkOwner id epoch = .ok x ↔ (0 < e.policyRevision ∧ e.policyRevision ≤ maxStoredInteger) ∧
      e.now ≤ maxStoredInteger ∧ e.owner.id = id ∧ e.owner.active = true ∧ e.owner.epoch = epoch := by
  simp [Environment.checkOwner]

@[simp] theorem OwnerSession.check_ok {s : OwnerSession} {e : Environment} {x : Unit} :
    s.check e = .ok x ↔ e.checkOwner s.id s.epoch = .ok () ∧ e.now < s.expiresAt := by
  simp only [OwnerSession.check, check_bind_eq_ok, denyIf_eq_ok, Nat.not_le, ge_iff_le]

/-! ## Hex -/

theorem nibble_hexNibble {n : Nat} (h : n < 16) : nibble (UInt8.ofNat (hexNibble n).toNat) = n := by
  have : ∀ m < 16, nibble (UInt8.ofNat (hexNibble m).toNat) = m := by decide
  exact this n h

theorem hexNibble_lt {n : Nat} (h : n < 16) : (hexNibble n).toNat < 128 := by
  have : ∀ m < 16, (hexNibble m).toNat < 128 := by decide
  exact this n h

theorem isLowerHex_hexNibble {n : Nat} (h : n < 16) : Text.isLowerHex (UInt8.ofNat (hexNibble n).toNat) = true := by
  have : ∀ m < 16, Text.isLowerHex (UInt8.ofNat (hexNibble m).toNat) = true := by decide
  exact this n h

/-- The text of `hex`, byte by byte. -/
theorem bytes_hex (bs : List UInt8) : Text.bytes (hex bs) = bs.flatMap fun b =>
    [UInt8.ofNat (hexNibble (b.toNat / 16)).toNat, UInt8.ofNat (hexNibble (b.toNat % 16)).toNat] := by
  rw [hex, Text.bytes_ofList, hexChars, List.flatMap_assoc]
  congr 1; funext b
  have := b.toNat_lt
  simp only [List.flatMap_cons, List.flatMap_nil, List.append_nil,
    Text.utf8EncodeChar_ascii (hexNibble_lt (show b.toNat / 16 < 16 by omega)),
    Text.utf8EncodeChar_ascii (hexNibble_lt (show b.toNat % 16 < 16 by omega)), List.cons_append, List.nil_append]

theorem length_hex (bs : List UInt8) : (hex bs).utf8ByteSize = 2 * bs.length := by
  rw [← Text.length_bytes, bytes_hex]
  induction bs with
  | nil => rfl
  | cons b bs ih =>
    simp only [List.flatMap_cons, List.length_append, ih, List.length_cons, List.length_nil]
    omega

theorem lowerHex_hex (bs : List UInt8) : lowerHex (hex bs) = true := by
  rw [lowerHex, List.all_eq_true, bytes_hex]
  intro x hx
  obtain ⟨b, -, hx⟩ := List.mem_flatMap.mp hx
  have := b.toNat_lt
  simp only [List.mem_cons, List.not_mem_nil, or_false] at hx
  rcases hx with rfl | rfl
  · exact isLowerHex_hexNibble (by omega)
  · exact isLowerHex_hexNibble (by omega)

theorem pairs_hex (bs : List UInt8) : pairs (Text.bytes (hex bs)) = bs := by
  rw [bytes_hex]
  induction bs with
  | nil => rfl
  | cons b bs ih =>
    have := b.toNat_lt
    rw [List.flatMap_cons]
    simp only [List.cons_append, List.nil_append, pairs, ih, List.cons.injEq, and_true,
      nibble_hexNibble (show b.toNat / 16 < 16 by omega), nibble_hexNibble (show b.toNat % 16 < 16 by omega)]
    rw [show b.toNat / 16 * 16 + b.toNat % 16 = b.toNat by omega, UInt8.ofNat_toNat]

@[simp] theorem Digest.parseHex_toHex (d : Digest) : Digest.parseHex d.toHex = .ok d := by
  have hl : (Text.bytes d.toHex).length = 64 := by
    rw [Text.length_bytes, Digest.toHex, length_hex, d.size]
  have hx : lowerHex d.toHex = true := lowerHex_hex d.bytes
  have hp : pairs (Text.bytes d.toHex) = d.bytes := pairs_hex d.bytes
  simp only [Digest.parseHex, hl, hx, hp, dite_true, if_true]

theorem Digest.toHex_inj {d e : Digest} (h : d.toHex = e.toHex) : d = e :=
  Except.ok.inj (by rw [← Digest.parseHex_toHex d, h, Digest.parseHex_toHex])

theorem Digest.parseHex_ok {v : String} {d : Digest} (h : Digest.parseHex v = .ok d) :
    v.utf8ByteSize = 64 ∧ lowerHex v = true := by
  unfold Digest.parseHex at h
  split at h
  · split at h
    · exact ⟨by rwa [← Text.length_bytes], by assumption⟩
    · cases h
  · cases h

/-! ## Nothing to escape -/

theorem escape_ascii {n : Nat} (h : n < 128) (h₁ : 32 ≤ n) (h₂ : n ≠ 34) (h₃ : n ≠ 92) :
    Json.escape (Char.ofNat n) = [Char.ofNat n] := by
  have : ∀ m < 128, 32 ≤ m → m ≠ 34 → m ≠ 92 → Json.escape (Char.ofNat m) = [Char.ofNat m] := by decide
  exact this n h h₁ h₂ h₃

theorem ofNat_toNat (c : Char) : Char.ofNat c.toNat = c := Char.ofNat_toNat c

theorem toNat_ofNat_of_lt {n : Nat} (h : n < 128) : (UInt8.ofNat n).toNat = n := by
  rw [UInt8.toNat_ofNat']; omega

/-- A check of every byte that admits neither a control byte, a quote nor a backslash leaves nothing to escape. -/
theorem plain_of_bytes {p : UInt8 → Bool} {s : String}
    (hp : ∀ b, p b = true → b.toNat < 128 ∧ 32 ≤ b.toNat ∧ b.toNat ≠ 34 ∧ b.toNat ≠ 92)
    (h : (Text.bytes s).all p = true) : ∀ c ∈ s.toList, Json.escape c = [c] := by
  intro c hc
  obtain ⟨hlt, hb⟩ := Text.forall_mem_of_bytes (p := fun b => p b = true) (fun b hb => (hp b hb).1)
    (fun b hb => List.all_eq_true.mp h b hb) c hc
  obtain ⟨-, h₁, h₂, h₃⟩ := hp _ hb
  rw [toNat_ofNat_of_lt hlt] at h₁ h₂ h₃
  have := escape_ascii hlt h₁ h₂ h₃
  rwa [ofNat_toNat] at this

/-- A character that is no control character but line feed and tab is short. -/
theorem short_of_ge {c : Char} (h : 32 ≤ c.toNat ∨ c = '\n' ∨ c = '\t') : Json.Short c := by
  rcases h with h | rfl | rfl
  · by_cases h₁ : c = '"'
    · exact .inr ⟨'"', by rw [h₁]; decide, by decide⟩
    by_cases h₂ : c = '\\'
    · exact .inr ⟨'\\', by rw [h₂]; decide, by decide⟩
    refine .inl ?_
    have hn : ∀ d : Char, d.toNat < 32 → c ≠ d := fun d hd e => by rw [e] at h; omega
    unfold Json.escape
    rw [if_neg h₁, if_neg h₂, if_neg (hn _ (by decide)), if_neg (hn _ (by decide)), if_neg (hn _ (by decide)),
      if_neg (hn _ (by decide)), if_neg (hn _ (by decide)), if_neg (Nat.not_lt.mpr h)]
  · exact .inr ⟨'n', by decide, by decide⟩
  · exact .inr ⟨'t', by decide, by decide⟩

theorem lowerHex_plain {s : String} (h : lowerHex s = true) : ∀ c ∈ s.toList, Json.escape c = [c] := by
  refine plain_of_bytes (fun b hb => ?_) h
  simp only [Text.isLowerHex, Bool.or_eq_true, Bool.and_eq_true, decide_eq_true_eq, UInt8.le_iff_toNat_le,
    UInt8.reduceToNat] at hb
  omega

theorem Id.plain (i : Id) : ∀ c ∈ i.text.toList, Json.escape c = [c] := by
  have h := i.valid
  simp only [Id.shape, Bool.and_eq_true] at h
  refine plain_of_bytes (fun b hb => ?_) h.2
  have hs : Text.bytes "-_.:" = [45, 95, 46, 58] := by decide
  simp only [hs, Text.isAlphanumeric, Text.isDigit, Text.isLower, Text.isUpper, Bool.or_eq_true, Bool.and_eq_true,
    decide_eq_true_eq, UInt8.le_iff_toNat_le, UInt8.reduceToNat, List.contains_eq_mem, List.mem_cons,
    List.not_mem_nil, or_false, ← UInt8.toNat_inj] at hb
  omega

theorem Id.size_le (i : Id) : i.text.utf8ByteSize ≤ 128 := by
  have h := i.valid
  simp only [Id.shape, Bool.and_eq_true, decide_eq_true_eq] at h
  exact h.1.2

/-- An identifier as a JSON string. -/
theorem Id.width_le (i : Id) : Json.width (Json.Value.str i.text).chars ≤ 130 := by
  rw [Json.Value.chars, Json.literal_plain i.plain]
  have := i.size_le
  omega

theorem lowerHex_width {s : String} (h : lowerHex s = true) :
    Json.width (Json.Value.str s).chars = 2 + s.utf8ByteSize := by
  rw [Json.Value.chars, Json.literal_plain (lowerHex_plain h)]

theorem Digest.width (d : Digest) : Json.width (Json.Value.str d.toHex).chars = 66 := by
  unfold Digest.toHex
  rw [lowerHex_width (lowerHex_hex _), length_hex, d.size]

theorem stored_width {n : Nat} (h : n ≤ maxStoredInteger) : Json.width (Json.Value.num n).chars ≤ 16 :=
  Json.width_num (by omega) (by simp only [maxStoredInteger] at h; omega)

/-! ## Framed fields -/

namespace Hash

open Framing

theorem reads_text : Reads (fun s : String => s.utf8ByteSize < 2 ^ 64) text id :=
  fun _ _ ha hb _ _ e => by
    obtain ⟨h, e⟩ := reads_counted ha hb e
    exact ⟨Text.bytes_inj h, e⟩

theorem reads_number : Reads (· < 2 ^ 64) number id := reads_be64

theorem reads_digest : Reads (fun _ : Digest => True) digest id := by
  intro a b _ _ u v e
  obtain ⟨h, e⟩ := reads_counted (show a.bytes.length < 2 ^ 64 by rw [a.size]; decide)
    (show b.bytes.length < 2 ^ 64 by rw [b.size]; decide) e
  refine ⟨?_, e⟩
  cases a; cases b; cases h; rfl

theorem reads_id : Reads (fun _ : Id => True) (fun i => text i.text) id := by
  intro a b _ _ u v e
  have hs : ∀ i : Id, i.text.utf8ByteSize < 2 ^ 64 := fun i => Nat.lt_of_le_of_lt i.size_le (by decide)
  obtain ⟨h, e⟩ := reads_text (hs a) (hs b) e
  exact ⟨Id.ext_text h, e⟩

end Hash

end Mikaki
