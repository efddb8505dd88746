import Mikaki.Lib.Text

/-!
# CBOR

Values without floating-point numbers. `encode` writes them with definite
lengths and the shortest heads, and `read` reads one value from the front of a
text; `read_encode` says that it is the value written there.
-/

namespace Cbor

inductive Value where
  | int (n : Int)
  | bytes (b : List UInt8)
  | text (s : String)
  | array (xs : List Value)
  | map (ms : List (Value × Value))
  | tag (t : Nat) (v : Value)
  | bool (b : Bool)
  | null

/-- Induction over a value, its elements and its entries. -/
@[elab_as_elim] theorem Value.ind {P : Value → Prop} (int : ∀ n, P (.int n)) (bytes : ∀ b, P (.bytes b))
    (text : ∀ s, P (.text s)) (array : ∀ xs, (∀ x ∈ xs, P x) → P (.array xs))
    (map : ∀ ms, (∀ m ∈ ms, P m.1 ∧ P m.2) → P (.map ms)) (tag : ∀ t v, P v → P (.tag t v)) (bool : ∀ b, P (.bool b))
    (null : P .null) (v : Value) : P v :=
  @Value.rec P (fun xs => ∀ x ∈ xs, P x) (fun ms => ∀ m ∈ ms, P m.1 ∧ P m.2) (fun m => P m.1 ∧ P m.2) int bytes text array map
    tag bool null (fun _ h => (List.not_mem_nil h).elim) (fun _ _ hx hxs => List.forall_mem_cons.mpr ⟨hx, hxs⟩)
    (fun _ h => (List.not_mem_nil h).elim) (fun _ _ hm hms => List.forall_mem_cons.mpr ⟨hm, hms⟩) (fun _ _ hk hv => ⟨hk, hv⟩) v

/-! ## Equality -/

mutual
def Value.same : Value → Value → Bool
  | .int n, .int m => n == m
  | .bytes b, .bytes c => b == c
  | .text s, .text t => s == t
  | .array xs, .array ys => sameAll xs ys
  | .map ms, .map ns => samePairs ms ns
  | .tag t v, .tag u w => t == u && v.same w
  | .bool b, .bool c => b == c
  | .null, .null => true
  | _, _ => false
def sameAll : List Value → List Value → Bool
  | [], [] => true
  | x :: xs, y :: ys => x.same y && sameAll xs ys
  | _, _ => false
def samePairs : List (Value × Value) → List (Value × Value) → Bool
  | [], [] => true
  | (k, v) :: ms, (l, w) :: ns => k.same l && v.same w && samePairs ms ns
  | _, _ => false
end

theorem same_iff : ∀ v w : Value, v.same w = true ↔ v = w := by
  intro v
  induction v using Value.ind with
  | int n => intro w; cases w <;> simp [Value.same]
  | bytes b => intro w; cases w <;> simp [Value.same]
  | text s => intro w; cases w <;> simp [Value.same]
  | tag t v ih => intro w; cases w <;> simp [Value.same, ih]
  | bool b => intro w; cases w <;> simp [Value.same]
  | null => intro w; cases w <;> simp [Value.same]
  | array xs ih =>
    have hall : ∀ ys, sameAll xs ys = true ↔ xs = ys := by
      induction xs with
      | nil => intro ys; cases ys <;> simp [sameAll]
      | cons x xs ihs =>
        obtain ⟨hx, hxs⟩ := List.forall_mem_cons.mp ih
        intro ys
        cases ys <;> simp [sameAll, hx, ihs hxs]
    intro w
    cases w <;> simp [Value.same, hall]
  | map ms ih =>
    have hall : ∀ ns, samePairs ms ns = true ↔ ms = ns := by
      induction ms with
      | nil => intro ns; cases ns <;> simp [samePairs]
      | cons m ms ihs =>
        obtain ⟨⟨hk, hv⟩, hms⟩ := List.forall_mem_cons.mp ih
        obtain ⟨k, v⟩ := m
        intro ns
        rcases ns with _ | ⟨⟨l, w⟩, ns⟩
        · simp [samePairs]
        · simp [samePairs, hk, hv, ihs hms]
    intro w
    cases w <;> simp [Value.same, hall]

instance : DecidableEq Value := fun v w => decidable_of_iff _ (same_iff v w)

/-! ## Heads -/

/-- The `k` low bytes of `n`, the most significant first. -/
def bigEndian : Nat → Nat → List UInt8
  | 0, _ => []
  | k + 1, n => UInt8.ofNat (n / 256 ^ k) :: bigEndian k n

def valueOf (bs : List UInt8) : Nat := bs.foldl (fun a b => a * 256 + b.toNat) 0

/-- The argument takes `2 ^ width n` bytes when it is not in the head itself. -/
def width (n : Nat) : Nat := if n < 2 ^ 8 then 0 else if n < 2 ^ 16 then 1 else if n < 2 ^ 32 then 2 else 3

def head (major n : Nat) : List UInt8 :=
  if n < 24 then [UInt8.ofNat (32 * major + n)]
  else UInt8.ofNat (32 * major + (24 + width n)) :: bigEndian (2 ^ width n) n

/-- The argument of a head and what follows it. -/
def readArgument (ai : Nat) (bs : List UInt8) : Option (Nat × List UInt8) :=
  if ai < 24 then some (ai, bs)
  else if ai < 28 then
    if 2 ^ (ai - 24) ≤ bs.length then some (valueOf (bs.take (2 ^ (ai - 24))), bs.drop (2 ^ (ai - 24))) else none
  else none

@[simp] theorem length_bigEndian (k n : Nat) : (bigEndian k n).length = k := by
  induction k with
  | zero => rfl
  | succ k ih => rw [bigEndian, List.length_cons, ih]

theorem foldl_bigEndian (k n a : Nat) :
    (bigEndian k n).foldl (fun a b => a * 256 + b.toNat) a = a * 256 ^ k + n % 256 ^ k := by
  induction k generalizing a with
  | zero => simp [bigEndian, Nat.mod_one]
  | succ k ih =>
    have hb : (UInt8.ofNat (n / 256 ^ k)).toNat = n / 256 ^ k % 256 := UInt8.toNat_ofNat'
    have hsplit : n % 256 ^ (k + 1) = n / 256 ^ k % 256 * 256 ^ k + n % 256 ^ k := by
      rw [Nat.pow_succ, Nat.mod_mul, Nat.add_comm, Nat.mul_comm]
    rw [bigEndian, List.foldl_cons, ih, hb, hsplit, Nat.pow_succ]
    ring

theorem valueOf_bigEndian {k n : Nat} (h : n < 256 ^ k) : valueOf (bigEndian k n) = n := by
  rw [valueOf, foldl_bigEndian, Nat.zero_mul, Nat.zero_add, Nat.mod_eq_of_lt h]

theorem lt_width {n : Nat} (h : n < 2 ^ 64) : n < 256 ^ 2 ^ width n := by
  unfold width
  split
  · simpa using ‹n < 2 ^ 8›
  split
  · simpa using ‹n < 2 ^ 16›
  split
  · simpa using ‹n < 2 ^ 32›
  · simpa using h

theorem width_le (n : Nat) : width n ≤ 3 := by
  unfold width
  split <;> (try split) <;> (try split) <;> omega

/-- A head is one byte and the rest of the argument. -/
theorem head_eq {major n : Nat} (hm : major < 8) (hn : n < 2 ^ 64) :
    ∃ b bs, head major n = b :: bs ∧ b.toNat / 32 = major ∧ ∀ r, readArgument (b.toNat % 32) (bs ++ r) = some (n, r) := by
  unfold head
  by_cases h : n < 24
  · have hb : (UInt8.ofNat (32 * major + n)).toNat = 32 * major + n := by
      rw [UInt8.toNat_ofNat', Nat.mod_eq_of_lt (by omega)]
    refine ⟨_, _, if_pos h, by omega, fun r => ?_⟩
    have hai : (UInt8.ofNat (32 * major + n)).toNat % 32 = n := by omega
    rw [hai, readArgument, if_pos h, List.nil_append]
  · have hw := width_le n
    have hb : (UInt8.ofNat (32 * major + (24 + width n))).toNat = 32 * major + (24 + width n) := by
      rw [UInt8.toNat_ofNat', Nat.mod_eq_of_lt (by omega)]
    refine ⟨_, _, if_neg h, by omega, fun r => ?_⟩
    have hai : (UInt8.ofNat (32 * major + (24 + width n))).toNat % 32 = 24 + width n := by omega
    have hlen : 2 ^ width n = (bigEndian (2 ^ width n) n).length := (length_bigEndian _ _).symm
    rw [hai, readArgument, if_neg (by omega), if_pos (by omega), Nat.add_sub_cancel_left, if_pos (by simp),
      List.take_append_of_le_length (Nat.le_of_eq hlen), List.take_of_length_le (Nat.le_of_eq hlen.symm),
      List.drop_append_of_le_length (Nat.le_of_eq hlen), List.drop_of_length_le (Nat.le_of_eq hlen.symm), List.nil_append,
      valueOf_bigEndian (lt_width hn)]

/-! ## Writing -/

mutual
def Value.encode : Value → List UInt8
  | .int n => if 0 ≤ n then head 0 n.toNat else head 1 (-1 - n).toNat
  | .bytes b => head 2 b.length ++ b
  | .text s => head 3 s.utf8ByteSize ++ Text.bytes s
  | .array xs => head 4 xs.length ++ encodeAll xs
  | .map ms => head 5 ms.length ++ encodePairs ms
  | .tag t v => head 6 t ++ v.encode
  | .bool false => head 7 20
  | .bool true => head 7 21
  | .null => head 7 22
def encodeAll : List Value → List UInt8
  | [] => []
  | x :: xs => x.encode ++ encodeAll xs
def encodePairs : List (Value × Value) → List UInt8
  | [] => []
  | (k, v) :: ms => k.encode ++ (v.encode ++ encodePairs ms)
end

/-! ## What holds in all of a value -/

mutual
/-- `p` holds of the value and of every value in it. -/
def Value.All (p : Value → Prop) : Value → Prop
  | .array xs => p (.array xs) ∧ EachAll p xs
  | .map ms => p (.map ms) ∧ PairsAll p ms
  | .tag t v => p (.tag t v) ∧ v.All p
  | v => p v
def EachAll (p : Value → Prop) : List Value → Prop
  | [] => True
  | x :: xs => x.All p ∧ EachAll p xs
def PairsAll (p : Value → Prop) : List (Value × Value) → Prop
  | [] => True
  | (k, v) :: ms => k.All p ∧ v.All p ∧ PairsAll p ms
end

theorem eachAll_iff {p : Value → Prop} {xs : List Value} : EachAll p xs ↔ ∀ x ∈ xs, x.All p := by
  induction xs with
  | nil => simp [EachAll]
  | cons x xs ih => rw [EachAll, ih, List.forall_mem_cons]

theorem pairsAll_iff {p : Value → Prop} {ms : List (Value × Value)} : PairsAll p ms ↔ ∀ m ∈ ms, m.1.All p ∧ m.2.All p := by
  induction ms with
  | nil => simp [PairsAll]
  | cons m ms ih =>
    obtain ⟨k, v⟩ := m
    rw [PairsAll, ih, List.forall_mem_cons, and_assoc]

mutual
/-- How many values are in a value, itself with them. -/
def Value.nodes : Value → Nat
  | .array xs => 1 + nodesAll xs
  | .map ms => 1 + nodesPairs ms
  | .tag _ v => 1 + v.nodes
  | _ => 1
def nodesAll : List Value → Nat
  | [] => 0
  | x :: xs => x.nodes + nodesAll xs
def nodesPairs : List (Value × Value) → Nat
  | [] => 0
  | (k, v) :: ms => k.nodes + (v.nodes + nodesPairs ms)
end

mutual
/-- How many levels a value has. -/
def Value.depth : Value → Nat
  | .array xs => 1 + depthAll xs
  | .map ms => 1 + depthPairs ms
  | .tag _ v => 1 + v.depth
  | _ => 1
def depthAll : List Value → Nat
  | [] => 0
  | x :: xs => max x.depth (depthAll xs)
def depthPairs : List (Value × Value) → Nat
  | [] => 0
  | (k, v) :: ms => max k.depth (max v.depth (depthPairs ms))
end

/-- Numbers and lengths that a head can say. -/
def Value.InRange (v : Value) : Prop :=
  v.All fun v =>
    match v with
    | .int n => -2 ^ 64 ≤ n ∧ n < 2 ^ 64
    | .bytes b => b.length < 2 ^ 64
    | .text s => s.utf8ByteSize < 2 ^ 64
    | .array xs => xs.length < 2 ^ 64
    | .map ms => ms.length < 2 ^ 64
    | .tag t _ => t < 2 ^ 64
    | _ => True

/-! ## Reading -/

/-- `n` readings one after the other. -/
def readTimes {α : Type} (f : List UInt8 → Option (α × List UInt8)) : Nat → List UInt8 → Option (List α × List UInt8)
  | 0, bs => some ([], bs)
  | n + 1, bs => do
    let (x, bs) ← f bs
    let (xs, bs) ← readTimes f n bs
    return (x :: xs, bs)

def readPair {α : Type} (f : List UInt8 → Option (α × List UInt8)) (bs : List UInt8) : Option ((α × α) × List UInt8) := do
  let (k, bs) ← f bs
  let (v, bs) ← f bs
  return ((k, v), bs)

def simple (n : Nat) : Option Value :=
  if n = 20 then some (.bool false) else if n = 21 then some (.bool true) else if n = 22 then some .null else none

/-- A value of at most `depth` levels from the front of a text. -/
def read : Nat → List UInt8 → Option (Value × List UInt8)
  | _, [] => none
  | 0, _ => none
  | depth + 1, b :: bs => do
    let (n, bs) ← readArgument (b.toNat % 32) bs
    match b.toNat / 32 with
    | 0 => some (.int n, bs)
    | 1 => some (.int (-1 - n), bs)
    | 2 => if n ≤ bs.length then some (.bytes (bs.take n), bs.drop n) else none
    | 3 => if n ≤ bs.length then (Text.utf8 (bs.take n)).map fun s => (.text s, bs.drop n) else none
    | 4 => (readTimes (read depth) n bs).map fun p => (.array p.1, p.2)
    | 5 => (readTimes (readPair (read depth)) n bs).map fun p => (.map p.1, p.2)
    | 6 => (read depth bs).map fun p => (.tag n p.1, p.2)
    | _ => (simple (b.toNat % 32)).map fun v => (v, bs)

/-! ## Round trip -/

theorem Value.InRange.array {xs : List Value} (h : Value.InRange (.array xs)) :
    xs.length < 2 ^ 64 ∧ ∀ x ∈ xs, x.InRange := by
  unfold Value.InRange at h ⊢
  rw [Value.All, eachAll_iff] at h
  exact h

theorem Value.InRange.map {ms : List (Value × Value)} (h : Value.InRange (.map ms)) :
    ms.length < 2 ^ 64 ∧ ∀ m ∈ ms, m.1.InRange ∧ m.2.InRange := by
  unfold Value.InRange at h ⊢
  rw [Value.All, pairsAll_iff] at h
  exact h

theorem depthAll_le {xs : List Value} {d : Nat} : depthAll xs ≤ d ↔ ∀ x ∈ xs, x.depth ≤ d := by
  induction xs with
  | nil => simp [depthAll]
  | cons x xs ih => rw [depthAll, Nat.max_le, ih, List.forall_mem_cons]

theorem depthPairs_le {ms : List (Value × Value)} {d : Nat} :
    depthPairs ms ≤ d ↔ ∀ m ∈ ms, m.1.depth ≤ d ∧ m.2.depth ≤ d := by
  induction ms with
  | nil => simp [depthPairs]
  | cons m ms ih =>
    obtain ⟨k, v⟩ := m
    rw [depthPairs, Nat.max_le, Nat.max_le, ih, List.forall_mem_cons, and_assoc]

/-- Reads the value `v` back from the front of any text. -/
def Reads (d : Nat) (v : Value) : Prop := ∀ r, read d (v.encode ++ r) = some (v, r)

theorem read_head {major n : Nat} (hm : major < 8) (hn : n < 2 ^ 64) (r : List UInt8) :
    ∃ b bs, head major n ++ r = b :: bs ∧ b.toNat / 32 = major ∧ readArgument (b.toNat % 32) bs = some (n, r) := by
  obtain ⟨b, bs, hb, hmajor, hread⟩ := head_eq hm hn
  exact ⟨b, bs ++ r, by rw [hb]; rfl, hmajor, hread r⟩

theorem readAll {d : Nat} {xs : List Value} (h : ∀ x ∈ xs, Reads d x) (r : List UInt8) :
    readTimes (read d) xs.length (encodeAll xs ++ r) = some (xs, r) := by
  induction xs with
  | nil => rfl
  | cons x xs ih =>
    obtain ⟨hx, hxs⟩ := List.forall_mem_cons.mp h
    rw [List.length_cons, encodeAll, List.append_assoc, readTimes, hx]
    simp [ih hxs]

theorem readPairs {d : Nat} {ms : List (Value × Value)} (h : ∀ m ∈ ms, Reads d m.1 ∧ Reads d m.2) (r : List UInt8) :
    readTimes (readPair (read d)) ms.length (encodePairs ms ++ r) = some (ms, r) := by
  induction ms with
  | nil => rfl
  | cons m ms ih =>
    obtain ⟨⟨hk, hv⟩, hms⟩ := List.forall_mem_cons.mp h
    obtain ⟨k, v⟩ := m
    rw [List.length_cons, encodePairs, List.append_assoc, List.append_assoc, readTimes, readPair, hk]
    simp [hv (encodePairs ms ++ r), ih hms]

theorem read_simple {d n : Nat} {v : Value} (hn : n < 24) (hv : simple n = some v) (r : List UInt8) :
    read (d + 1) (head 7 n ++ r) = some (v, r) := by
  have hb : (UInt8.ofNat (32 * 7 + n)).toNat = 32 * 7 + n := by
    rw [UInt8.toNat_ofNat', Nat.mod_eq_of_lt (by omega)]
  have hmajor : (UInt8.ofNat (32 * 7 + n)).toNat / 32 = 7 := by omega
  have hai : (UInt8.ofNat (32 * 7 + n)).toNat % 32 = n := by omega
  rw [head, if_pos hn, List.singleton_append, read, hmajor, hai, readArgument, if_pos hn]
  simp [hv]

/-- What was written is read back. -/
theorem read_encode {v : Value} (hv : v.InRange) : ∀ {d : Nat}, v.depth ≤ d → Reads d v := by
  induction v using Value.ind with
  | int n =>
    rintro (_ | d) hd r
    · cases hd
    · have hrange : -2 ^ 64 ≤ n ∧ n < 2 ^ 64 := hv
      unfold Value.encode
      by_cases h : 0 ≤ n
      · obtain ⟨b, bs, hb, hmajor, hread⟩ := read_head (show 0 < 8 by decide) (show n.toNat < 2 ^ 64 by omega) r
        rw [if_pos h, hb, read, hread, hmajor]
        simp [h]
      · obtain ⟨b, bs, hb, hmajor, hread⟩ := read_head (show 1 < 8 by decide) (show (-1 - n).toNat < 2 ^ 64 by omega) r
        rw [if_neg h, hb, read, hread, hmajor]
        have hn : -1 - (((-1 - n).toNat : Nat) : Int) = n := by omega
        simp only [Option.bind_eq_bind, Option.bind_some, hn]
  | bytes bs =>
    rintro (_ | d) hd r
    · cases hd
    · obtain ⟨b, cs, hb, hmajor, hread⟩ := read_head (show 2 < 8 by decide) hv (bs ++ r)
      rw [Value.encode, List.append_assoc, hb, read, hread, hmajor]
      simp
  | text s =>
    rintro (_ | d) hd r
    · cases hd
    · obtain ⟨b, cs, hb, hmajor, hread⟩ := read_head (show 3 < 8 by decide) hv (Text.bytes s ++ r)
      rw [Value.encode, List.append_assoc, hb, read, hread, hmajor]
      have htake : (Text.bytes s ++ r).take s.utf8ByteSize = Text.bytes s := by
        rw [← Text.length_bytes, List.take_left]
      have hdrop : (Text.bytes s ++ r).drop s.utf8ByteSize = r := by
        rw [← Text.length_bytes, List.drop_left]
      simp [htake, hdrop, Text.utf8_bytes]
  | array xs ih =>
    rintro (_ | d) hd r
    · simp [Value.depth] at hd
    · obtain ⟨hlen, hall⟩ := hv.array
      obtain ⟨b, cs, hb, hmajor, hread⟩ := read_head (show 4 < 8 by decide) hlen (encodeAll xs ++ r)
      have hdepth := depthAll_le.mp (show depthAll xs ≤ d by simpa [Value.depth, Nat.add_comm] using hd)
      rw [Value.encode, List.append_assoc, hb, read, hread, hmajor]
      simp [readAll (fun x hx => ih x hx (hall x hx) (hdepth x hx)) r]
  | map ms ih =>
    rintro (_ | d) hd r
    · simp [Value.depth] at hd
    · obtain ⟨hlen, hall⟩ := hv.map
      obtain ⟨b, cs, hb, hmajor, hread⟩ := read_head (show 5 < 8 by decide) hlen (encodePairs ms ++ r)
      have hdepth := depthPairs_le.mp (show depthPairs ms ≤ d by simpa [Value.depth, Nat.add_comm] using hd)
      rw [Value.encode, List.append_assoc, hb, read, hread, hmajor]
      simp [readPairs (fun m hm => ⟨(ih m hm).1 (hall m hm).1 (hdepth m hm).1, (ih m hm).2 (hall m hm).2 (hdepth m hm).2⟩) r]
  | tag t v ih =>
    rintro (_ | d) hd r
    · simp [Value.depth] at hd
    · obtain ⟨ht, hv⟩ : t < 2 ^ 64 ∧ v.InRange := hv
      obtain ⟨b, cs, hb, hmajor, hread⟩ := read_head (show 6 < 8 by decide) ht (v.encode ++ r)
      have hdepth : v.depth ≤ d := by
        rw [Value.depth] at hd
        omega
      rw [Value.encode, List.append_assoc, hb, read, hread, hmajor]
      simp [ih hv hdepth r]
  | bool b =>
    rintro (_ | d) hd r
    · cases hd
    · cases b with
      | true => exact read_simple (by decide) rfl r
      | false => exact read_simple (by decide) rfl r
  | null =>
    rintro (_ | d) hd r
    · cases hd
    · exact read_simple (by decide) rfl r

/-- Different values are written differently, whatever follows. -/
theorem encode_inj {v w : Value} {r s : List UInt8} (hv : v.InRange) (hw : w.InRange) (h : v.encode ++ r = w.encode ++ s) :
    v = w ∧ r = s := by
  have hread := read_encode hv (Nat.le_max_left v.depth w.depth) r
  rw [h, read_encode hw (Nat.le_max_right v.depth w.depth) s, Option.some.injEq, Prod.mk.injEq] at hread
  exact ⟨hread.1.symm, hread.2.symm⟩

theorem length_head_pos (major n : Nat) : 1 ≤ (head major n).length := by
  unfold head
  split <;> simp

theorem depth_le (v : Value) : v.depth ≤ v.encode.length := by
  induction v using Value.ind with
  | int n =>
    unfold Value.encode
    split <;> exact length_head_pos _ _
  | bytes b => simpa [Value.encode, Value.depth] using Nat.le_add_right_of_le (length_head_pos 2 b.length)
  | text s => simpa [Value.encode, Value.depth] using Nat.le_add_right_of_le (length_head_pos 3 s.utf8ByteSize)
  | array xs ih =>
    have hall : depthAll xs ≤ (encodeAll xs).length := by
      induction xs with
      | nil => simp [depthAll]
      | cons x xs ihs =>
        obtain ⟨hx, hxs⟩ := List.forall_mem_cons.mp ih
        have := ihs hxs
        rw [depthAll, encodeAll, List.length_append]
        omega
    have := length_head_pos 4 xs.length
    rw [Value.depth, Value.encode, List.length_append]
    omega
  | map ms ih =>
    have hall : depthPairs ms ≤ (encodePairs ms).length := by
      induction ms with
      | nil => simp [depthPairs]
      | cons m ms ihs =>
        obtain ⟨⟨hk, hv⟩, hms⟩ := List.forall_mem_cons.mp ih
        obtain ⟨k, v⟩ := m
        dsimp only at hk hv
        have := ihs hms
        rw [depthPairs, encodePairs, List.length_append, List.length_append]
        omega
    have := length_head_pos 5 ms.length
    rw [Value.depth, Value.encode, List.length_append]
    omega
  | tag t v ih =>
    have := length_head_pos 6 t
    rw [Value.depth, Value.encode, List.length_append]
    omega
  | bool b => cases b <;> exact length_head_pos _ _
  | null => exact length_head_pos _ _

/-- The value at the front of a text. -/
def fromBytes (bs : List UInt8) : Option Value := (read bs.length bs).map Prod.fst

theorem fromBytes_encode {v : Value} (hv : v.InRange) : fromBytes v.encode = some v := by
  have hread := read_encode hv (depth_le v) []
  rw [List.append_nil] at hread
  rw [fromBytes, hread]
  rfl

end Cbor
