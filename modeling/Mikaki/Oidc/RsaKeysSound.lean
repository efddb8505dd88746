import Mikaki.Oidc.RsaKeys
import Mikaki.Work.BasicSound

/-!
# Which sizes of RSA keys are accepted

Both parsers announce moduli of 256 to 512 bytes and require the top bit. For
512 bytes they require a small first byte as well, and no key is left.
-/

namespace Mikaki.Oidc.Signing

/-! ## Keys as text -/

theorem mapM_str (l : List String) : (l.map Json.Value.str).mapM Json.Value.asStr = some l := by
  induction l with
  | nil => rfl
  | cons s l ih =>
    rw [List.map_cons, List.mapM_cons, ih]
    rfl

/-- The names of the optional members, in their order. -/
def optionals : List String := ["alg", "use", "key_ops", "ext"]

theorem Usage.names (u : Usage) : (u.members.map Prod.fst).Sublist optionals := by
  obtain ⟨alg, use_, keyOps, ext⟩ := u
  cases alg <;> cases use_ <;> cases keyOps <;> cases ext <;> simp [Usage.members, optionals]

theorem lookup_toList {α : Type} (a : Option α) (k name : String) (value : α → Json.Value) :
    ((a.map fun x => (k, value x)).toList).lookup name = if name = k then a.map value else none := by
  cases a with
  | none => simp
  | some x =>
    by_cases h : name = k
    · simp [h]
    · simp [h, List.lookup_cons, beq_false_of_ne h]

theorem Usage.lookup (u : Usage) :
    u.members.lookup "alg" = u.alg.map .str ∧ u.members.lookup "use" = u.use_.map .str ∧
      u.members.lookup "key_ops" = (u.keyOps.map fun ops => .arr (ops.map .str)) ∧ u.members.lookup "ext" = u.ext.map .bool := by
  simp [Usage.members, List.lookup_append, lookup_toList]

theorem optional_map {α : Type} {read : Json.Value → Option α} {value : α → Json.Value} (h : ∀ x, read (value x) = some x)
    (hn : ∀ x, value x ≠ .null) (a : Option α) : optional read (a.map value) = some a := by
  cases a with
  | none => rfl
  | some x =>
    rw [Option.map_some, optional, h]
    · rfl
    · exact hn x

/-- Members before the optional ones leave these as they are. -/
theorem Usage.read_members (u : Usage) (ms : List (String × Json.Value)) (h : ∀ k ∈ optionals, ms.lookup k = none) :
    Usage.read (fun k => (ms ++ u.members).lookup k) = some u := by
  obtain ⟨h₁, h₂, h₃, h₄⟩ := u.lookup
  have skip : ∀ k ∈ optionals, (ms ++ u.members).lookup k = u.members.lookup k := by
    intro k hk
    rw [List.lookup_append, h k hk, Option.none_or]
  have text : ∀ a : Option String, optional Json.Value.asStr (a.map .str) = some a :=
    optional_map (fun _ => rfl) fun _ e => by cases e
  have texts : optional (Json.Value.asArr Json.Value.asStr) (u.keyOps.map fun ops => .arr (ops.map .str)) = some u.keyOps :=
    optional_map (fun ops => mapM_str ops) (fun _ e => by cases e) u.keyOps
  have flag : optional readBool (u.ext.map .bool) = some u.ext :=
    optional_map (fun b => show readBool (.bool b) = some b from rfl) (fun _ e => by cases e) u.ext
  simp only [Usage.read, skip "alg" (by decide), skip "use" (by decide), skip "key_ops" (by decide), skip "ext" (by decide), h₁, h₂,
    h₃, h₄, text, texts, flag]
  rfl

/-- A record of a key: its members by name, each at most once. -/
theorem fields_members (u : Usage) (ms : List (String × Json.Value)) {names : List String}
    (hn : names = ms.map Prod.fst ++ optionals) (hd : names.Nodup) :
    Json.fields names (.obj (ms ++ u.members)) = some fun k => (ms ++ u.members).lookup k := by
  have hs : ((ms ++ u.members).map Prod.fst).Sublist names := by
    rw [hn, List.map_append]
    exact (List.Sublist.refl _).append u.names
  rw [Json.fields, if_pos ⟨hs.nodup hd, fun k hk => hs.mem hk⟩]

/-- The members of the public half of a key. -/
def RsaPublicJwk.named (jwk : RsaPublicJwk) : List (String × Json.Value) :=
  [("kty", .str jwk.kty), ("kid", .str jwk.kid), ("n", .str jwk.n), ("e", .str jwk.e)]

/-- The members of a private key. -/
def RsaPrivateJwk.named (jwk : RsaPrivateJwk) : List (String × Json.Value) :=
  jwk.toRsaPublicJwk.named ++ [("d", .str jwk.d), ("p", .str jwk.p), ("q", .str jwk.q), ("dp", .str jwk.dp), ("dq", .str jwk.dq),
    ("qi", .str jwk.qi)]

theorem RsaPublicJwk.json_eq (jwk : RsaPublicJwk) : jwk.json = .obj (jwk.named ++ jwk.members) := rfl

theorem RsaPrivateJwk.json_eq (jwk : RsaPrivateJwk) : jwk.json = .obj (jwk.named ++ jwk.members) := rfl

theorem RsaPublicJwk.read_json (jwk : RsaPublicJwk) : RsaPublicJwk.read jwk.json = some jwk := by
  have hf := fields_members jwk.toUsage jwk.named rfl (show (jwk.named.map Prod.fst ++ optionals).Nodup by
    show ["kty", "kid", "n", "e", "alg", "use", "key_ops", "ext"].Nodup
    decide)
  have hu := jwk.toUsage.read_members jwk.named fun k hk => by
    simp only [optionals, List.mem_cons, List.not_mem_nil, or_false] at hk
    obtain rfl | rfl | rfl | rfl := hk <;> rfl
  rw [RsaPublicJwk.json_eq, RsaPublicJwk.read]
  refine Option.bind_eq_some_iff.mpr ⟨_, hf, ?_⟩
  simp only [hu]
  rfl

theorem RsaPrivateJwk.read_json (jwk : RsaPrivateJwk) : RsaPrivateJwk.read jwk.json = some jwk := by
  have hf := fields_members jwk.toUsage jwk.named rfl (show (jwk.named.map Prod.fst ++ optionals).Nodup by
    show ["kty", "kid", "n", "e", "d", "p", "q", "dp", "dq", "qi", "alg", "use", "key_ops", "ext"].Nodup
    decide)
  have hu := jwk.toUsage.read_members jwk.named fun k hk => by
    simp only [optionals, List.mem_cons, List.not_mem_nil, or_false] at hk
    obtain rfl | rfl | rfl | rfl := hk <;> rfl
  rw [RsaPrivateJwk.json_eq, RsaPrivateJwk.read]
  refine Option.bind_eq_some_iff.mpr ⟨_, hf, ?_⟩
  simp only [hu]
  rfl

/-! ## Numbers -/

theorem decodeUint_some {input : String} {lo hi : Nat} {bs : List UInt8} : decodeBase64urlUint input lo hi = some bs ↔
    input = Base64url.encode bs ∧ lo ≤ bs.length ∧ bs.length ≤ hi ∧ bs.headD 0 ≠ 0 := by
  simp only [decodeBase64urlUint, Option.bind_eq_bind, Option.bind_eq_some_iff, Option.ite_none_left_eq_some, Option.some.injEq]
  constructor
  · rintro ⟨bytes, -, hc, rfl⟩
    simp only [not_or, Nat.not_lt, Decidable.not_not] at hc
    exact ⟨hc.2.2.2.symm, hc.1, hc.2.1, hc.2.2.1⟩
  · rintro ⟨rfl, h₁, h₂, h₃⟩
    refine ⟨bs, Base64url.decode_encode bs, ?_, rfl⟩
    simp only [not_or, Nat.not_lt, Decidable.not_not]
    exact ⟨h₁, h₂, h₃, trivial⟩

/-- The number of a big-endian byte string. -/
def number (bs : List UInt8) : Nat := bs.foldl (fun v b => v * 256 + b.toNat) 0

theorem exponentValue_from (bs : List UInt8) (v : Nat) (h : (v + 1) * 256 ^ bs.length ≤ 2 ^ 32) :
    bs.foldlM (fun value b => if value * 256 + b.toNat < 2 ^ 32 then some (value * 256 + b.toNat) else none) v =
      some (bs.foldl (fun v b => v * 256 + b.toNat) v) := by
  induction bs generalizing v with
  | nil => rfl
  | cons b bs ih =>
    have hb := b.toNat_lt
    have hn : (v * 256 + b.toNat + 1) * 256 ^ bs.length ≤ 2 ^ 32 := by
      refine Nat.le_trans (Nat.mul_le_mul_right _ (show v * 256 + b.toNat + 1 ≤ (v + 1) * 256 by omega)) ?_
      rw [Nat.mul_assoc, ← Nat.pow_succ']
      exact h
    have hp : 1 ≤ 256 ^ bs.length := Nat.one_le_pow _ _ (by decide)
    have hv : v * 256 + b.toNat < 2 ^ 32 :=
      Nat.lt_of_lt_of_le (Nat.lt_succ_self _) (Nat.le_trans (Nat.le_mul_of_pos_right _ hp) hn)
    rw [List.foldlM_cons, if_pos hv]
    exact ih _ hn

/-- Four bytes do not overflow. -/
theorem exponentValue_eq {bs : List UInt8} (h : bs.length ≤ 4) : exponentValue bs = some (number bs) := by
  refine exponentValue_from bs 0 ?_
  rw [Nat.zero_add, Nat.one_mul]
  exact Nat.le_trans (Nat.pow_le_pow_right (by decide) h) (by decide)

/-! ## What the parsers accept -/

/-- No other algorithm and use, one of the given lists of operations, and an extractable key. -/
def Usage.Admits (ops : List (List String)) (u : Usage) : Prop :=
  (∀ alg ∈ u.alg, alg = "RS256") ∧ (∀ use_ ∈ u.use_, use_ = "sig") ∧ (∀ o ∈ u.keyOps, o ∈ ops) ∧ u.ext ≠ some false

def Usage.Signs (u : Usage) : Prop := u.Admits [["sign"]]

def Usage.Verifies (u : Usage) : Prop := u.Admits [[], ["verify"]]

/-- The name and the two numbers of the public half of a key, in its text. -/
structure Half (jwk : RsaPublicJwk) (m x : List UInt8) : Prop where
  kty : jwk.kty = "RSA"
  kid_ne : jwk.kid ≠ ""
  kid_size : jwk.kid.utf8ByteSize ≤ 128
  kid_plain : hasControl jwk.kid = false
  modulus : decodeBase64urlUint jwk.n 256 512 = some m
  exponent : decodeBase64urlUint jwk.e 1 4 = some x
  top : 0x80 ≤ m.headD 0
  odd : m.getLastD 0 &&& 1 = 1
  exponent_min : 3 ≤ number x
  exponent_odd : number x % 2 = 1

/-- No modulus has the top bit and passes the test of its first byte at 512 bytes. -/
theorem not_small {b : UInt8} (h : 0x80 ≤ b) : ¬b ≤ 0x0f := by
  rw [UInt8.le_iff_toNat_le] at h ⊢
  have e₁ : (0x80 : UInt8).toNat = 128 := rfl
  have e₂ : (0x0f : UInt8).toNat = 15 := rfl
  rw [e₁] at h
  rw [e₂]
  omega

theorem low_bit (b : UInt8) : b &&& 1 = 0 ↔ ¬b &&& 1 = 1 := by
  have hb : (b &&& 1).toNat = b.toNat % 2 := by
    rw [UInt8.toNat_and]
    exact Nat.and_one_is_mod b.toNat
  rw [← UInt8.toNat_inj, ← UInt8.toNat_inj, hb, show (0 : UInt8).toNat = 0 from rfl, show (1 : UInt8).toNat = 1 from rfl]
  omega

/-- The numbers of the public half, as both parsers test them. -/
theorem numbers_iff {m x : List UInt8} (hx : x.length ≤ 4) :
    (¬(m.headD 0 < 0x80 ∨ (m.length = 512 ∧ 0x0f < m.headD 0) ∨ m.getLastD 0 &&& 1 = 0 ∨
      (exponentValue x).all (fun value => decide (value < 3 ∨ value % 2 = 0)) = true)) ↔
    0x80 ≤ m.headD 0 ∧ m.length ≠ 512 ∧ m.getLastD 0 &&& 1 = 1 ∧ 3 ≤ number x ∧ number x % 2 = 1 := by
  rw [exponentValue_eq hx, Option.all_some, decide_eq_true_eq, low_bit]
  simp only [not_or, not_and, UInt8.not_lt, Decidable.not_not, Nat.not_lt, Nat.mod_two_ne_zero]
  constructor
  · rintro ⟨h₁, h₂, h₃, h₄, h₅⟩
    exact ⟨h₁, fun e => not_small h₁ (h₂ e), h₃, h₄, h₅⟩
  · rintro ⟨h₁, h₂, h₃, h₄, h₅⟩
    exact ⟨h₁, fun e => absurd e h₂, h₃, h₄, h₅⟩

theorem numbers_all_iff {m x : List UInt8} (hm : m.length ≤ 512) (hx : x.length ≤ 4) :
    (decide (0x80 ≤ m.headD 0) && (decide (m.length < 512) || decide (m.headD 0 ≤ 0x0f)) &&
      decide (m.getLastD 0 &&& 1 = 1) && (exponentValue x).any fun value => decide (3 ≤ value ∧ value % 2 = 1)) = true ↔
    0x80 ≤ m.headD 0 ∧ m.length ≠ 512 ∧ m.getLastD 0 &&& 1 = 1 ∧ 3 ≤ number x ∧ number x % 2 = 1 := by
  rw [exponentValue_eq hx, Option.any_some]
  simp only [Bool.and_eq_true, Bool.or_eq_true, decide_eq_true_eq]
  constructor
  · rintro ⟨⟨⟨h₁, h₂⟩, h₃⟩, h₄, h₅⟩
    exact ⟨h₁, h₂.elim Nat.ne_of_lt fun e => absurd e (not_small h₁), h₃, h₄, h₅⟩
  · rintro ⟨h₁, h₂, h₃, h₄, h₅⟩
    exact ⟨⟨⟨h₁, .inl (Nat.lt_of_le_of_ne hm h₂)⟩, h₃⟩, h₄, h₅⟩

/-- The name of a key and its use, as both parsers test them. -/
theorem usage_iff {jwk : RsaPublicJwk} {bad : List String → Prop} {ops : List (List String)} (ho : ∀ o, o ∈ ops ↔ ¬bad o) :
    (¬(jwk.kty ≠ "RSA" ∨ jwk.kid = "" ∨ 128 < jwk.kid.utf8ByteSize ∨ hasControl jwk.kid = true ∨ (∃ alg ∈ jwk.alg, alg ≠ "RS256") ∨
      (∃ use_ ∈ jwk.use_, use_ ≠ "sig") ∨ (∃ o ∈ jwk.keyOps, bad o) ∨ jwk.ext = some false)) ↔
    (jwk.kty = "RSA" ∧ jwk.kid ≠ "" ∧ jwk.kid.utf8ByteSize ≤ 128 ∧ hasControl jwk.kid = false) ∧ jwk.toUsage.Admits ops := by
  simp only [not_or, not_exists, not_and, Decidable.not_not, Nat.not_lt, Bool.not_eq_true, Usage.Admits, ho, and_assoc, ne_eq]

theorem validate_iff {jwk : RsaPublicJwk} : validateRsaPublicMetadata jwk = true ↔
    jwk.toUsage.Verifies ∧ ∃ m x, Half jwk m x ∧ m.length ≠ 512 := by
  unfold validateRsaPublicMetadata
  have ho : ∀ o : List String, o ∈ [[], ["verify"]] ↔ ¬(o ≠ [] ∧ o ≠ ["verify"]) := by
    intro o
    simp only [List.mem_cons, List.not_mem_nil, or_false]
    tauto
  have hu := @usage_iff jwk _ _ ho
  split
  · rename_i hc
    refine iff_of_false (by decide) ?_
    rintro ⟨hv, m, x, h, -⟩
    exact hu.mpr ⟨⟨h.kty, h.kid_ne, h.kid_size, h.kid_plain⟩, hv⟩ hc
  · rename_i hc
    obtain ⟨⟨h₁, h₂, h₃, h₄⟩, hv⟩ := hu.mp hc
    split
    · rename_i m x hm hx
      rw [numbers_all_iff (decodeUint_some.mp hm).2.2.1 (decodeUint_some.mp hx).2.2.1]
      constructor
      · rintro ⟨n₁, n₂, n₃, n₄, n₅⟩
        exact ⟨hv, m, x, ⟨h₁, h₂, h₃, h₄, hm, hx, n₁, n₃, n₄, n₅⟩, n₂⟩
      · rintro ⟨-, m', x', h, hl⟩
        obtain rfl : m = m' := Option.some.inj (hm.symm.trans h.modulus)
        obtain rfl : x = x' := Option.some.inj (hx.symm.trans h.exponent)
        exact ⟨h.top, hl, h.odd, h.exponent_min, h.exponent_odd⟩
    · rename_i hn
      refine iff_of_false (by decide) ?_
      rintro ⟨-, m, x, h, -⟩
      exact hn m x h.modulus h.exponent

/-- The numbers of the private half are of the admitted sizes. -/
def RsaPrivateJwk.Secrets (jwk : RsaPrivateJwk) : Prop :=
  (∃ d, decodeBase64urlUint jwk.d 1 512 = some d) ∧
    ∀ s ∈ [jwk.p, jwk.q, jwk.dp, jwk.dq, jwk.qi], ∃ part, decodeBase64urlUint s 1 256 = some part

theorem fromPrivateJwk_some {input : String} {key : RsaPrivateTokenKey} : RsaPrivateTokenKey.fromPrivateJwk input = some key ↔
    input.utf8ByteSize ≤ 8192 ∧ (Json.parse input).bind RsaPrivateJwk.read = some key.jwk ∧ key.jwk.toUsage.Signs ∧
      (∃ m x, Half key.jwk.toRsaPublicJwk m x ∧ m.length ≠ 512) ∧ key.jwk.Secrets := by
  have ho : ∀ o : List String, o ∈ [["sign"]] ↔ ¬o ≠ ["sign"] := by
    intro o
    rw [List.mem_singleton, Decidable.not_not]
  simp only [RsaPrivateTokenKey.fromPrivateJwk, Option.bind_eq_bind, Option.bind_none, Option.pure_def, Option.ite_none_left_eq_some,
    Option.bind_eq_some_iff, Option.some.injEq, Nat.not_lt]
  constructor
  · rintro ⟨hs, jwk, hj, hu, m, hm, x, hx, hn, d, hd, p, hp, q, hq, dp, hdp, dq, hdq, qi, hqi, rfl⟩
    obtain ⟨⟨h₁, h₂, h₃, h₄⟩, hv⟩ := (@usage_iff jwk.toRsaPublicJwk _ _ ho).mp hu
    obtain ⟨n₁, n₂, n₃, n₄, n₅⟩ := (numbers_iff (decodeUint_some.mp hx).2.2.1).mp hn
    refine ⟨hs, hj, hv, ⟨m, x, ⟨h₁, h₂, h₃, h₄, hm, hx, n₁, n₃, n₄, n₅⟩, n₂⟩, ⟨d, hd⟩, fun s h => ?_⟩
    simp only [List.mem_cons, List.not_mem_nil, or_false] at h
    obtain rfl | rfl | rfl | rfl | rfl := h
    · exact ⟨p, hp⟩
    · exact ⟨q, hq⟩
    · exact ⟨dp, hdp⟩
    · exact ⟨dq, hdq⟩
    · exact ⟨qi, hqi⟩
  · rintro ⟨hs, hj, hv, ⟨m, x, h, hl⟩, ⟨d, hd⟩, parts⟩
    obtain ⟨p, hp⟩ := parts key.jwk.p (by simp)
    obtain ⟨q, hq⟩ := parts key.jwk.q (by simp)
    obtain ⟨dp, hdp⟩ := parts key.jwk.dp (by simp)
    obtain ⟨dq, hdq⟩ := parts key.jwk.dq (by simp)
    obtain ⟨qi, hqi⟩ := parts key.jwk.qi (by simp)
    have hu := (@usage_iff key.jwk.toRsaPublicJwk _ _ ho).mpr ⟨⟨h.kty, h.kid_ne, h.kid_size, h.kid_plain⟩, hv⟩
    have hn := (numbers_iff (decodeUint_some.mp h.exponent).2.2.1).mpr ⟨h.top, hl, h.odd, h.exponent_min, h.exponent_odd⟩
    exact ⟨hs, key.jwk, hj, hu, m, h.modulus, x, h.exponent, hn, d, hd, p, hp, q, hq, dp, hdp, dq, hdq, qi, hqi, rfl⟩

/-! ## Sizes of the texts -/

theorem width_decoded {input : String} {lo hi : Nat} {bs : List UInt8} (h : decodeBase64urlUint input lo hi = some bs) :
    Json.width (Json.literal input) ≤ 2 + (4 * hi + 2) / 3 := by
  obtain ⟨rfl, -, hl, -⟩ := decodeUint_some.mp h
  rw [Json.width_encode]
  omega

/-- A text without control characters at most doubles. -/
theorem width_plain {s : String} (h : hasControl s = false) : Json.width (Json.literal s) ≤ 2 + 2 * s.utf8ByteSize := by
  refine Json.literal_le fun c hc => short_of_ge (.inl ?_)
  by_contra hl
  have hm := Text.ascii_mem_bytes hc (by omega)
  simp only [hasControl, List.any_eq_false, Bool.or_eq_true, decide_eq_true_eq, not_or] at h
  refine (h _ hm).1 ?_
  rw [UInt8.lt_iff_toNat_lt, Base64url.toNat_ofNat (by omega)]
  exact Nat.not_le.mp hl

theorem valuesWidth_append (a b : List Json.Value) : Json.valuesWidth (a ++ b) = Json.valuesWidth a + Json.valuesWidth b := by
  simp [Json.valuesWidth]

theorem width_optional {α : Type} (a : Option α) (k : String) (value : α → Json.Value) (n : Nat)
    (h : ∀ x ∈ a, Json.width (value x).chars ≤ n) : Json.valuesWidth ((a.map fun x => (k, value x)).toList.map Prod.snd) ≤ n := by
  cases a with
  | none => exact Nat.zero_le _
  | some x => simpa [Json.valuesWidth] using h x rfl

/-- The optional members of an admitted key are short. -/
theorem width_members {u : Usage} {ops : List (List String)} (h : u.Admits ops)
    (ho : ∀ o ∈ ops, Json.width (Json.Value.arr (o.map .str)).chars ≤ 10) : Json.valuesWidth (u.members.map Prod.snd) ≤ 27 := by
  obtain ⟨h₁, h₂, h₃, -⟩ := h
  have w₁ := width_optional u.alg "alg" .str 7 fun s hs => by
    rw [h₁ s hs]
    decide
  have w₂ := width_optional u.use_ "use" .str 5 fun s hs => by
    rw [h₂ s hs]
    decide
  have w₃ := width_optional u.keyOps "key_ops" (fun o => .arr (o.map .str)) 10 fun o hm => ho o (h₃ o hm)
  have w₄ := width_optional u.ext "ext" .bool 5 fun b _ => by
    cases b <;> decide
  simp only [Usage.members, List.map_append, valuesWidth_append]
  omega

theorem keysWidth_mono {a b : List String} (h : a.Sublist b) : Json.keysWidth a ≤ Json.keysWidth b :=
  (h.map _).sum_le_sum fun _ _ => Nat.zero_le _

/-- The size of a record of a key, from its named members. -/
theorem size_members {u : Usage} {ops : List (List String)} (h : u.Admits ops)
    (ho : ∀ o ∈ ops, Json.width (Json.Value.arr (o.map .str)).chars ≤ 10) (ms : List (String × Json.Value)) :
    (Json.Value.obj (ms ++ u.members)).render.utf8ByteSize ≤
      Json.keysWidth (ms.map Prod.fst ++ optionals) + Json.valuesWidth (ms.map Prod.snd) + 29 := by
  have hw := Json.width_obj (ms ++ u.members)
  have hm := width_members h ho
  have hk := keysWidth_mono ((List.Sublist.refl (ms.map Prod.fst)).append u.names)
  rw [List.map_append, List.map_append, valuesWidth_append] at hw
  rw [Json.size_render]
  omega

theorem width_named {jwk : RsaPublicJwk} {m x : List UInt8} (h : Half jwk m x) : Json.valuesWidth (jwk.named.map Prod.snd) ≤ 956 := by
  have hr : Json.width (Json.literal "RSA") = 5 := by decide
  have hk := width_plain h.kid_plain
  have hs := h.kid_size
  have hn := width_decoded h.modulus
  have he := width_decoded h.exponent
  simp only [RsaPublicJwk.named, Json.valuesWidth, List.map_cons, List.map_nil, List.sum_cons, List.sum_nil, Json.Value.chars, h.kty]
  omega

theorem size_public {jwk : RsaPublicJwk} {m x : List UInt8} (h : Half jwk m x) (hu : jwk.toUsage.Verifies) :
    jwk.json.render.utf8ByteSize ≤ 4096 := by
  have hs := size_members hu (by decide) jwk.named
  have hw := width_named h
  have hk : Json.keysWidth (jwk.named.map Prod.fst ++ optionals) = 56 := by
    show Json.keysWidth ["kty", "kid", "n", "e", "alg", "use", "key_ops", "ext"] = 56
    decide
  rw [RsaPublicJwk.json_eq]
  omega

theorem size_private {jwk : RsaPrivateJwk} {m x : List UInt8} (h : Half jwk.toRsaPublicJwk m x) (hp : jwk.Secrets)
    (hu : jwk.toUsage.Signs) : jwk.json.render.utf8ByteSize ≤ 8192 := by
  have hs := size_members hu (by decide) jwk.named
  have hw := width_named h
  obtain ⟨⟨d, hd⟩, parts⟩ := hp
  have hd := width_decoded hd
  have part : ∀ s ∈ [jwk.p, jwk.q, jwk.dp, jwk.dq, jwk.qi], Json.width (Json.literal s) ≤ 344 := by
    intro s hs
    obtain ⟨part, hp⟩ := parts s hs
    exact width_decoded hp
  have hp := part jwk.p (by simp)
  have hq := part jwk.q (by simp)
  have hdp := part jwk.dp (by simp)
  have hdq := part jwk.dq (by simp)
  have hqi := part jwk.qi (by simp)
  have hk : Json.keysWidth (jwk.named.map Prod.fst ++ optionals) = 89 := by
    show Json.keysWidth ["kty", "kid", "n", "e", "d", "p", "q", "dp", "dq", "qi", "alg", "use", "key_ops", "ext"] = 89
    decide
  rw [RsaPrivateJwk.json_eq]
  have hv : Json.valuesWidth (jwk.named.map Prod.snd) ≤ 956 + 685 + 5 * 344 := by
    simp only [RsaPrivateJwk.named, List.map_append, valuesWidth_append, List.map_cons, List.map_nil]
    simp only [Json.valuesWidth, List.map_cons, List.map_nil, List.sum_cons, List.sum_nil, Json.Value.chars] at hw ⊢
    omega
  omega

/-! ## What is accepted -/

theorem parse_json {α : Type} {read : Json.Value → Option α} {value : Json.Value} {a : α} (h : read value = some a) :
    (Json.parse value.render).bind read = some a := by
  rw [Json.parse_render]
  exact h

/-- No optional member is called as a required one. -/
theorem member_kty (jwk : RsaPublicJwk) : member "kty" jwk.json = some jwk.kty := by
  have hm : jwk.members.reverse.lookup "kty" = none := by
    rw [List.lookup_eq_none_iff]
    intro m hm
    have := jwk.toUsage.names.mem (List.mem_map_of_mem (List.mem_reverse.mp hm))
    rw [bne_iff_ne]
    rintro e
    rw [← e] at this
    exact absurd this (by decide)
  have hl : ((jwk.named ++ jwk.members).reverse).lookup "kty" = some (.str jwk.kty) := by
    rw [List.reverse_append, List.lookup_append, hm]
    rfl
  rw [RsaPublicJwk.json_eq, member, hl]
  rfl

/-- The record a public key is kept as. -/
def RsaPublicJwk.canonical (jwk : RsaPublicJwk) : RsaPublicJwk :=
  { jwk with kty := "RSA", alg := some "RS256", use_ := some "sig", keyOps := none, ext := none }

theorem preparePublicJwk_json (jwk : RsaPublicJwk) (hk : jwk.kty = "RSA") : preparePublicJwk jwk.json.render =
    if jwk.json.render.utf8ByteSize ≤ 4096 ∧ validateRsaPublicMetadata jwk = true then
      some { canonical := jwk.canonical.json.render, point := none }
    else none := by
  unfold preparePublicJwk
  by_cases hs : 4096 < jwk.json.render.utf8ByteSize
  · rw [if_pos hs, if_neg fun h => absurd h.1 (Nat.not_le.mpr hs)]
    rfl
  rw [if_neg hs]
  simp only [Json.parse_render, member_kty, hk, RsaPublicJwk.read_json, Option.bind_eq_bind, Option.bind_some, if_true]
  cases hv : validateRsaPublicMetadata jwk with
  | false => simp
  | true => simp [Nat.not_lt.mp hs, RsaPublicJwk.canonical]

/-- A public key of other than 512 bytes is accepted and kept as its canonical record. -/
theorem preparePublicJwk_half {jwk : RsaPublicJwk} {m x : List UInt8} (h : Half jwk m x) (hl : m.length ≠ 512)
    (hu : jwk.toUsage.Verifies) :
    preparePublicJwk jwk.json.render = some { canonical := jwk.canonical.json.render, point := none } := by
  rw [preparePublicJwk_json jwk h.kty, if_pos ⟨size_public h hu, validate_iff.mpr ⟨hu, m, x, h, hl⟩⟩]

/-- The public half of a private key with the given use. -/
def RsaPrivateTokenKey.projection (self : RsaPrivateTokenKey) (u : Usage) : RsaPublicJwk :=
  { u with kty := self.jwk.kty, kid := self.jwk.kid, n := self.jwk.n, e := self.jwk.e }

/-- A private key that was accepted matches its own public half. -/
theorem matches_projection {input : String} {key : RsaPrivateTokenKey} (h : RsaPrivateTokenKey.fromPrivateJwk input = some key)
    {u : Usage} (hu : u.Verifies) : key.matchesPublicJwk (key.projection u).json.render = true := by
  obtain ⟨-, -, -, ⟨m, x, hm, hl⟩, -⟩ := fromPrivateJwk_some.mp h
  have hp : Half (key.projection u) m x :=
    ⟨hm.kty, hm.kid_ne, hm.kid_size, hm.kid_plain, hm.modulus, hm.exponent, hm.top, hm.odd, hm.exponent_min, hm.exponent_odd⟩
  unfold RsaPrivateTokenKey.matchesPublicJwk
  rw [preparePublicJwk_half hp hl hu]
  simp only [ne_eq, not_true_eq_false, if_false, parse_json (RsaPublicJwk.read_json _), decide_eq_true_eq]
  exact ⟨rfl, rfl, rfl, rfl⟩

/-! ## Keys of the announced sizes -/

/-- A positive number as big-endian bytes without a leading zero. -/
structure Uint where
  bytes : List UInt8
  leading : bytes.headD 0 ≠ 0
  deriving DecidableEq

def Uint.text (self : Uint) : String := Base64url.encode self.bytes

theorem Uint.decode {lo hi : Nat} (n : Uint) {bs : List UInt8} :
    decodeBase64urlUint n.text lo hi = some bs ↔ bs = n.bytes ∧ lo ≤ n.bytes.length ∧ n.bytes.length ≤ hi := by
  rw [decodeUint_some]
  constructor
  · rintro ⟨h, h₁, h₂, -⟩
    have e : some n.bytes = some bs := by
      rw [← Base64url.decode_encode, ← Base64url.decode_encode bs]
      exact congrArg _ h
    cases e
    exact ⟨rfl, h₁, h₂⟩
  · rintro ⟨rfl, h₁, h₂⟩
    exact ⟨rfl, h₁, h₂, n.leading⟩

theorem Uint.length_pos (n : Uint) : 1 ≤ n.bytes.length := by
  cases h : n.bytes with
  | nil => exact absurd (by rw [h]; rfl) n.leading
  | cons b bs => exact Nat.le_add_left 1 _

/-- An odd modulus of 256 to 512 bytes with its top bit set, an odd exponent, and private parts of any size. -/
structure Key where
  kid : String
  modulus : Uint
  exponent : Uint
  d : Uint
  p : Uint
  q : Uint
  dp : Uint
  dq : Uint
  qi : Uint
  kid_ne : kid ≠ ""
  kid_size : kid.utf8ByteSize ≤ 128
  kid_plain : hasControl kid = false
  modulus_min : 256 ≤ modulus.bytes.length
  modulus_max : modulus.bytes.length ≤ 512
  top : 0x80 ≤ modulus.bytes.headD 0
  odd : modulus.bytes.getLastD 0 &&& 1 = 1
  exponent_max : exponent.bytes.length ≤ 4
  exponent_min : 3 ≤ number exponent.bytes
  exponent_odd : number exponent.bytes % 2 = 1

namespace Key

variable (k : Key)

def publicJwk (u : Usage) : RsaPublicJwk := { u with kty := "RSA", kid := k.kid, n := k.modulus.text, e := k.exponent.text }

def privateJwk (u : Usage) : RsaPrivateJwk :=
  { k.publicJwk u with d := k.d.text, p := k.p.text, q := k.q.text, dp := k.dp.text, dq := k.dq.text, qi := k.qi.text }

/-- The private parts are as short as those of a key of 512 bytes with primes of 256. -/
def PartsFit : Prop := k.d.bytes.length ≤ 512 ∧ ∀ part ∈ [k.p, k.q, k.dp, k.dq, k.qi], part.bytes.length ≤ 256

instance : Decidable k.PartsFit := inferInstanceAs (Decidable (_ ∧ _))

theorem half (u : Usage) : Half (k.publicJwk u) k.modulus.bytes k.exponent.bytes where
  kty := rfl
  kid_ne := k.kid_ne
  kid_size := k.kid_size
  kid_plain := k.kid_plain
  modulus := k.modulus.decode.mpr ⟨rfl, k.modulus_min, k.modulus_max⟩
  exponent := k.exponent.decode.mpr ⟨rfl, k.exponent.length_pos, k.exponent_max⟩
  top := k.top
  odd := k.odd
  exponent_min := k.exponent_min
  exponent_odd := k.exponent_odd

end Key

theorem Key.secrets_iff (k : Key) (u : Usage) : (k.privateJwk u).Secrets ↔ k.PartsFit := by
  have part : ∀ (n : Uint) (hi : Nat), (∃ bs, decodeBase64urlUint n.text 1 hi = some bs) ↔ n.bytes.length ≤ hi := by
    intro n hi
    simp only [n.decode]
    exact ⟨fun ⟨_, _, _, h⟩ => h, fun h => ⟨_, rfl, n.length_pos, h⟩⟩
  simp only [RsaPrivateJwk.Secrets, Key.PartsFit, List.forall_mem_cons, List.not_mem_nil, false_implies, implies_true, Key.privateJwk, part]

/-- A modulus of 512 bytes is refused in a private key, whatever the rest. -/
theorem Key.fromPrivateJwk_iff (k : Key) {u : Usage} (hu : u.Signs) :
    RsaPrivateTokenKey.fromPrivateJwk (k.privateJwk u).json.render = some ⟨k.privateJwk u⟩ ↔
      k.modulus.bytes.length < 512 ∧ k.PartsFit := by
  have hh := k.half u
  rw [fromPrivateJwk_some, parse_json (RsaPrivateJwk.read_json _)]
  constructor
  · rintro ⟨-, -, -, ⟨m, x, h, hl⟩, hp⟩
    obtain rfl : k.modulus.bytes = m := Option.some.inj (hh.modulus.symm.trans h.modulus)
    exact ⟨Nat.lt_of_le_of_ne k.modulus_max hl, (k.secrets_iff u).mp hp⟩
  · rintro ⟨hl, hp⟩
    have hp := (k.secrets_iff u).mpr hp
    exact ⟨size_private hh hp hu, rfl, hu, ⟨_, _, hh, Nat.ne_of_lt hl⟩, hp⟩

/-- And in a public one. -/
theorem Key.preparePublicJwk_iff (k : Key) {u : Usage} (hu : u.Verifies) :
    (preparePublicJwk (k.publicJwk u).json.render).isSome = true ↔ k.modulus.bytes.length < 512 := by
  have hh := k.half u
  constructor
  · intro h
    rw [preparePublicJwk_json _ hh.kty] at h
    split at h
    · rename_i hv
      obtain ⟨-, m, x, h', hl⟩ := validate_iff.mp hv.2
      obtain rfl : k.modulus.bytes = m := Option.some.inj (hh.modulus.symm.trans h'.modulus)
      exact Nat.lt_of_le_of_ne k.modulus_max hl
    · cases h
  · intro hl
    rw [preparePublicJwk_half hh (Nat.ne_of_lt hl) hu]
    rfl

theorem finish_rs256 (input : String) {signature : List UInt8} (h₁ : 256 ≤ signature.length) (h₂ : signature.length ≤ 512) :
    finish "RS256" input signature = some (input ++ "." ++ Base64url.encode signature) := by
  simp [finish, h₁, h₂]

/-- No optional member. -/
def Usage.unnamed : Usage := { alg := none, use_ := none, keyOps := none, ext := none }

theorem Usage.unnamed_admits (ops : List (List String)) : Usage.unnamed.Admits ops := by
  simp [Usage.unnamed, Usage.Admits]

theorem Usage.unnamed_signs : Usage.unnamed.Signs := Usage.unnamed_admits _

/-- What is expected of a key of the announced sizes. -/
def Key.Accepted (k : Key) : Prop :=
  (∀ u : Usage, u.Signs → RsaPrivateTokenKey.fromPrivateJwk (k.privateJwk u).json.render = some ⟨k.privateJwk u⟩) ∧
    (∀ u : Usage, u.Verifies → (preparePublicJwk (k.publicJwk u).json.render).isSome = true) ∧
      ∀ (input : String) (signature : List UInt8), signature.length = k.modulus.bytes.length →
        (finish "RS256" input signature).isSome = true

/-- A key of an announced size is accepted by both parsers, its signatures are accepted and private keys match their public halves,
exactly if the modulus is shorter than the longest size and the private parts have the sizes the parser reads. -/
theorem key_sizes (k : Key) : (k.Accepted ∧ ∀ (input : String) (key : RsaPrivateTokenKey),
      RsaPrivateTokenKey.fromPrivateJwk input = some key → ∀ u : Usage, u.Verifies →
        key.matchesPublicJwk (key.projection u).json.render = true) ↔
    k.modulus.bytes.length < 512 ∧ k.PartsFit := by
  constructor
  · rintro ⟨⟨hs, -, -⟩, -⟩
    exact (k.fromPrivateJwk_iff Usage.unnamed_signs).mp (hs _ Usage.unnamed_signs)
  · rintro ⟨hl, hp⟩
    refine ⟨⟨fun u hu => (k.fromPrivateJwk_iff hu).mpr ⟨hl, hp⟩, fun u hu => (k.preparePublicJwk_iff hu).mpr hl, fun input signature h => ?_⟩,
      fun input key h u hu => matches_projection h hu⟩
    rw [finish_rs256 input (h ▸ k.modulus_min) (h ▸ k.modulus_max)]
    rfl

/-- A key of the shortest announced size. -/
def narrowest : Key where
  kid := "narrowest"
  modulus := ⟨List.replicate 256 0xff, by decide⟩
  exponent := ⟨[1, 0, 1], by decide⟩
  d := ⟨[3], by decide⟩
  p := ⟨[5], by decide⟩
  q := ⟨[7], by decide⟩
  dp := ⟨[3], by decide⟩
  dq := ⟨[3], by decide⟩
  qi := ⟨[3], by decide⟩
  kid_ne := by decide
  kid_size := by decide
  kid_plain := by decide +kernel
  modulus_min := by decide +kernel
  modulus_max := by decide +kernel
  top := by decide +kernel
  odd := by decide +kernel
  exponent_max := by decide
  exponent_min := by decide
  exponent_odd := by decide

theorem key_sizes_narrowest : narrowest.Accepted ∧ (⟨narrowest.privateJwk Usage.unnamed⟩ : RsaPrivateTokenKey).matchesPublicJwk
    (RsaPrivateTokenKey.projection ⟨narrowest.privateJwk Usage.unnamed⟩ Usage.unnamed).json.render = true := by
  obtain ⟨h, hm⟩ := (key_sizes narrowest).mpr ⟨by decide +kernel, by decide +kernel⟩
  exact ⟨h, hm _ _ (h.1 _ Usage.unnamed_signs) _ (Usage.unnamed_admits _)⟩

/-- The equations between the numbers of a private key. -/
structure Key.Consistent (k : Key) : Prop where
  modulus : number k.modulus.bytes = number k.p.bytes * number k.q.bytes
  d : number k.exponent.bytes * number k.d.bytes % (number k.p.bytes - 1) = 1 ∧
    number k.exponent.bytes * number k.d.bytes % (number k.q.bytes - 1) = 1
  dp : number k.dp.bytes = number k.d.bytes % (number k.p.bytes - 1)
  dq : number k.dq.bytes = number k.d.bytes % (number k.q.bytes - 1)
  qi : number k.q.bytes * number k.qi.bytes % number k.p.bytes = 1

def bigEndian (length n : Nat) : List UInt8 := (List.range length).reverse.map fun i => UInt8.ofNat (n / 256 ^ i % 256)

namespace Widest

/-- Two primes below a power of two. -/
def p : Nat := 2 ^ 2048 - 1557

def q : Nat := 2 ^ 2048 - 2543

def d : Nat := (1 + 1651 * ((p - 1) * (q - 1))) / 65537

def qi : Nat := (355 * p - 1) / 986

end Widest

/-- A key of the longest announced size. -/
def widest : Key where
  kid := "widest"
  modulus := ⟨bigEndian 512 (Widest.p * Widest.q), by decide +kernel⟩
  exponent := ⟨[1, 0, 1], by decide⟩
  d := ⟨bigEndian 512 Widest.d, by decide +kernel⟩
  p := ⟨bigEndian 256 Widest.p, by decide +kernel⟩
  q := ⟨bigEndian 256 Widest.q, by decide +kernel⟩
  dp := ⟨bigEndian 256 (Widest.d % (Widest.p - 1)), by decide +kernel⟩
  dq := ⟨bigEndian 256 (Widest.d % (Widest.q - 1)), by decide +kernel⟩
  qi := ⟨bigEndian 256 Widest.qi, by decide +kernel⟩
  kid_ne := by decide
  kid_size := by decide
  kid_plain := by decide +kernel
  modulus_min := by decide +kernel
  modulus_max := by decide +kernel
  top := by decide +kernel
  odd := by decide +kernel
  exponent_max := by decide
  exponent_min := by decide
  exponent_odd := by decide

theorem widest_consistent : widest.Consistent where
  modulus := by decide +kernel
  d := by decide +kernel
  dp := by decide +kernel
  dq := by decide +kernel
  qi := by decide +kernel

/-- A consistent key of the longest announced size is refused by both parsers. -/
theorem widest_refused : widest.Consistent ∧ widest.PartsFit ∧ RsaPrivateTokenKey.fromPrivateJwk (widest.privateJwk Usage.unnamed).json.render ≠
      some ⟨widest.privateJwk Usage.unnamed⟩ ∧
    (preparePublicJwk (widest.publicJwk Usage.unnamed).json.render).isSome = false ∧ ¬∀ k : Key, k.Consistent → k.Accepted := by
  have hl : ¬widest.modulus.bytes.length < 512 := by decide +kernel
  have hp : RsaPrivateTokenKey.fromPrivateJwk (widest.privateJwk Usage.unnamed).json.render ≠ some ⟨widest.privateJwk Usage.unnamed⟩ :=
    fun h => hl ((widest.fromPrivateJwk_iff Usage.unnamed_signs).mp h).1
  refine ⟨widest_consistent, by decide +kernel, hp, ?_, fun h => hp ((h widest widest_consistent).1 _ Usage.unnamed_signs)⟩
  rw [Bool.eq_false_iff]
  exact fun h => hl ((widest.preparePublicJwk_iff (Usage.unnamed_admits _)).mp h)

end Mikaki.Oidc.Signing
