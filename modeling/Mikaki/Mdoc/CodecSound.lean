import Mikaki.Mdoc.Codec

/-!
# What the bounded CBOR accepts

The scan goes over an encoded value from its first byte to its last and counts
the values in it. It reads no byte outside of what it was given, and what it
says depends on the bytes before the position it reaches only.
-/

namespace Mikaki.Mdoc

open Checks Cbor
open Mikaki.Identity.Wallet (orElse orElse_eq_ok)

/-! ## The scan of an encoded value -/

theorem argument_eq {b : List UInt8} {ai p : Nat} (hp : p ≤ b.length) :
    argument b ai p = (readArgument ai (b.drop p)).map fun q => (q.1, b.length - q.2.length) := by
  unfold argument readArgument
  by_cases h : ai < 24
  · rw [if_pos h, if_pos h]
    simp [Nat.sub_sub_self hp]
  · rw [if_neg h, if_neg h]
    by_cases h' : ai < 28
    · rw [if_pos h', if_pos h']
      dsimp only
      generalize 2 ^ (ai - 24) = size
      by_cases hs : p + size ≤ b.length
      · rw [if_pos hs, if_pos (by rw [List.length_drop]; omega)]
        simp only [Option.map_some, List.drop_drop, List.length_drop, Option.some.injEq, Prod.mk.injEq, true_and]
        omega
      · rw [if_neg hs, if_neg (by rw [List.length_drop]; omega)]
        rfl
    · rw [if_neg h', if_neg h']
      rfl

section
variable {b r : List UInt8} {p k room : Nat}

theorem length_of_drop {l : List UInt8} (hl : l ≠ []) (h : b.drop p = l ++ r) : p + l.length + r.length = b.length := by
  have hlen := congrArg List.length h
  have hpos := List.length_pos_iff.mpr hl
  rw [List.length_drop, List.length_append] at hlen
  omega

theorem drop_of_drop {l : List UInt8} (h : b.drop p = l ++ r) : b.drop (p + l.length) = r := by
  rw [← List.drop_drop, h, List.drop_left]

theorem head_ne_nil (major n : Nat) : head major n ≠ [] := List.length_pos_iff.mp (length_head_pos major n)

theorem scan_head {major n : Nat} (hm : major < 8) (hn : n < 2 ^ 64) (h : b.drop p = head major n ++ r) (hk : k + 1 ≤ 512) :
    ∃ ai, (n < 24 → ai = n) ∧
      scan b (room + 1) (p, k) = contents b (scan b room) major ai n (p + (head major n).length) (k + 1) := by
  obtain ⟨x, bs, hx, hmajor, hread⟩ := head_eq hm hn
  have hne := head_ne_nil major n
  have hlen := length_of_drop hne h
  have hpos := List.length_pos_iff.mpr hne
  have hcons : b.drop p = x :: (bs ++ r) := by rw [h, hx]; rfl
  have hget : b[p]? = some x := by
    rw [← Nat.add_zero p, ← List.getElem?_drop, hcons]
    rfl
  have hrest : b.drop (p + 1) = bs ++ r := by
    rw [← List.drop_drop, hcons]
    rfl
  have harg : argument b (x.toNat % 32) (p + 1) = some (n, p + (head major n).length) := by
    rw [argument_eq (by omega), hrest, hread r, Option.map_some, ← hlen, Nat.add_sub_cancel]
  refine ⟨x.toNat % 32, fun hn => ?_, ?_⟩
  · rw [head, if_pos hn, List.cons.injEq] at hx
    have hx : x.toNat = 32 * major + n := by
      rw [← hx.1, UInt8.toNat_ofNat']
      omega
    omega
  · rw [scan, denyIf, if_neg (Nat.not_lt.mpr hk), ok_bind, hget, orElse, ok_bind, harg, orElse, ok_bind, hmajor]

/-- Few elements in each collection, and no other tag than those of dates and embedded CBOR. -/
def Small (v : Value) : Prop :=
  v.All fun v =>
    match v with
    | .array xs => xs.length ≤ 64
    | .map ms => ms.length ≤ 64
    | .tag t _ => t = 24 ∨ t = 0
    | _ => True

theorem Small.array {xs : List Value} (h : Small (.array xs)) : xs.length ≤ 64 ∧ ∀ x ∈ xs, Small x := by
  unfold Small at h ⊢
  rw [Value.All, eachAll_iff] at h
  exact h

theorem Small.map {ms : List (Value × Value)} (h : Small (.map ms)) : ms.length ≤ 64 ∧ ∀ m ∈ ms, Small m.1 ∧ Small m.2 := by
  unfold Small at h ⊢
  rw [Value.All, pairsAll_iff] at h
  exact h

/-- The scan goes over the value `v`. -/
def Scans (b : List UInt8) (room : Nat) (v : Value) : Prop :=
  ∀ p k r, b.drop p = v.encode ++ r → k + v.nodes ≤ 512 → scan b room (p, k) = .ok (p + v.encode.length, k + v.nodes)

theorem scanAll {xs : List Value} (h : ∀ x ∈ xs, Scans b room x) (hd : b.drop p = encodeAll xs ++ r)
    (hk : k + nodesAll xs ≤ 512) :
    rounds (scan b room) xs.length (p, k) = .ok (p + (encodeAll xs).length, k + nodesAll xs) := by
  induction xs generalizing p k with
  | nil => rfl
  | cons x xs ih =>
    obtain ⟨hx, hxs⟩ := List.forall_mem_cons.mp h
    rw [encodeAll, List.append_assoc] at hd
    rw [nodesAll] at hk
    rw [List.length_cons, rounds, hx p k _ hd (by omega), ok_bind, ih hxs (drop_of_drop hd) (by omega), encodeAll, nodesAll,
      List.length_append, Nat.add_assoc, Nat.add_assoc]

theorem scanPairs {ms : List (Value × Value)} (h : ∀ m ∈ ms, Scans b room m.1 ∧ Scans b room m.2)
    (hd : b.drop p = encodePairs ms ++ r) (hk : k + nodesPairs ms ≤ 512) :
    rounds (scan b room) (ms.length * 2) (p, k) = .ok (p + (encodePairs ms).length, k + nodesPairs ms) := by
  induction ms generalizing p k with
  | nil => rfl
  | cons m ms ih =>
    obtain ⟨⟨hkey, hv⟩, hms⟩ := List.forall_mem_cons.mp h
    obtain ⟨key, v⟩ := m
    dsimp only at hkey hv
    rw [encodePairs, List.append_assoc, List.append_assoc] at hd
    rw [nodesPairs] at hk
    have hd' := drop_of_drop hd
    rw [List.length_cons, Nat.succ_mul, rounds, hkey p k _ hd (by omega), ok_bind, rounds, hv _ _ _ hd' (by omega), ok_bind,
      ih hms (drop_of_drop hd') (by omega), encodePairs, nodesPairs, List.length_append, List.length_append]
    congr 2 <;> omega

theorem scan_encode {v : Value} (hv : v.InRange) (hs : Small v) : ∀ {room}, v.depth ≤ room → Scans b room v := by
  induction v using Value.ind with
  | int n =>
    rintro (_ | room) hd p k r hb hk
    · cases hd
    · have hrange : -2 ^ 64 ≤ n ∧ n < 2 ^ 64 := hv
      by_cases h : 0 ≤ n
      · rw [Value.encode, if_pos h] at hb ⊢
        obtain ⟨ai, -, hscan⟩ := scan_head (show 0 < 8 by decide) (show n.toNat < 2 ^ 64 by omega) hb hk
        exact hscan
      · rw [Value.encode, if_neg h] at hb ⊢
        obtain ⟨ai, -, hscan⟩ := scan_head (show 1 < 8 by decide) (show (-1 - n).toNat < 2 ^ 64 by omega) hb hk
        exact hscan
  | bytes bs =>
    rintro (_ | room) hd p k r hb hk
    · cases hd
    · rw [Value.encode, List.append_assoc] at hb
      obtain ⟨ai, -, hscan⟩ := scan_head (show 2 < 8 by decide) hv hb hk
      have hlen := length_of_drop (head_ne_nil 2 bs.length) hb
      rw [List.length_append] at hlen
      rw [hscan, contents, if_pos (by omega), Value.encode, List.length_append, Nat.add_assoc]
      rfl
  | text s =>
    rintro (_ | room) hd p k r hb hk
    · cases hd
    · rw [Value.encode, List.append_assoc] at hb
      obtain ⟨ai, -, hscan⟩ := scan_head (show 3 < 8 by decide) hv hb hk
      have hlen := length_of_drop (head_ne_nil 3 s.utf8ByteSize) hb
      rw [List.length_append, Text.length_bytes] at hlen
      rw [hscan, contents, if_pos (by omega), Value.encode, List.length_append, Text.length_bytes, Nat.add_assoc]
      rfl
  | array xs ih =>
    rintro (_ | room) hd p k r hb hk
    · simp [Value.depth] at hd
    · obtain ⟨hlen, hall⟩ := hv.array
      obtain ⟨hfew, hsmall⟩ := hs.array
      rw [Value.encode, List.append_assoc] at hb
      rw [Value.nodes] at hk
      have hdepth := depthAll_le.mp (show depthAll xs ≤ room by rw [Value.depth] at hd; omega)
      obtain ⟨ai, -, hscan⟩ := scan_head (show 4 < 8 by decide) hlen hb (show k + 1 ≤ 512 by omega)
      have hinner := scanAll (fun x hx => ih x hx (hall x hx) (hsmall x hx) (hdepth x hx)) (drop_of_drop hb)
        (show k + 1 + nodesAll xs ≤ 512 by omega)
      rw [hscan, contents, if_neg (by omega), hinner, Value.encode, Value.nodes, List.length_append, Nat.add_assoc,
        Nat.add_assoc]
  | map ms ih =>
    rintro (_ | room) hd p k r hb hk
    · simp [Value.depth] at hd
    · obtain ⟨hlen, hall⟩ := hv.map
      obtain ⟨hfew, hsmall⟩ := hs.map
      rw [Value.encode, List.append_assoc] at hb
      rw [Value.nodes] at hk
      have hdepth := depthPairs_le.mp (show depthPairs ms ≤ room by rw [Value.depth] at hd; omega)
      obtain ⟨ai, -, hscan⟩ := scan_head (show 5 < 8 by decide) hlen hb (show k + 1 ≤ 512 by omega)
      have hinner := scanPairs (fun m hm => ⟨(ih m hm).1 (hall m hm).1 (hsmall m hm).1 (hdepth m hm).1,
        (ih m hm).2 (hall m hm).2 (hsmall m hm).2 (hdepth m hm).2⟩) (drop_of_drop hb)
        (show k + 1 + nodesPairs ms ≤ 512 by omega)
      rw [hscan, contents, if_neg (by omega), hinner, Value.encode, Value.nodes, List.length_append, Nat.add_assoc,
        Nat.add_assoc]
  | tag t v ih =>
    rintro (_ | room) hd p k r hb hk
    · simp [Value.depth] at hd
    · obtain ⟨ht, hv⟩ : t < 2 ^ 64 ∧ v.InRange := hv
      obtain ⟨hts, hs⟩ : (t = 24 ∨ t = 0) ∧ Small v := hs
      rw [Value.encode, List.append_assoc] at hb
      rw [Value.nodes] at hk
      obtain ⟨ai, -, hscan⟩ := scan_head (show 6 < 8 by decide) ht hb (show k + 1 ≤ 512 by omega)
      have hdepth : v.depth ≤ room := by
        rw [Value.depth] at hd
        omega
      rw [hscan, contents, if_neg (by omega), ih hv hs hdepth _ _ _ (drop_of_drop hb) (by omega), Value.encode, Value.nodes,
        List.length_append, Nat.add_assoc, Nat.add_assoc]
  | bool c =>
    rintro (_ | room) hd p k r hb hk
    · cases hd
    · cases c with
      | true =>
        obtain ⟨ai, hai, hscan⟩ := scan_head (show 7 < 8 by decide) (show 21 < 2 ^ 64 by decide) hb hk
        rw [hscan, hai (by decide)]
        rfl
      | false =>
        obtain ⟨ai, hai, hscan⟩ := scan_head (show 7 < 8 by decide) (show 20 < 2 ^ 64 by decide) hb hk
        rw [hscan, hai (by decide)]
        rfl
  | null =>
    rintro (_ | room) hd p k r hb hk
    · cases hd
    · obtain ⟨ai, hai, hscan⟩ := scan_head (show 7 < 8 by decide) (show 22 < 2 ^ 64 by decide) hb hk
      rw [hscan, hai (by decide)]
      rfl

end

/-! ## What the scan reads -/

/-- A step that moves on within its text, counts at most 512 values, and does the same on every text that agrees with its own
up to the position it reaches. -/
structure Reading (step : List UInt8 → Nat × Nat → Except String (Nat × Nat)) : Prop where
  within : ∀ {b s t}, step b s = .ok t → s.1 ≤ b.length → s.1 ≤ t.1 ∧ t.1 ≤ b.length
  counts : ∀ {b s t}, step b s = .ok t → s.2 ≤ t.2 ∧ (s.2 ≤ 512 → t.2 ≤ 512)
  agrees : ∀ {b s t}, step b s = .ok t → s.1 ≤ b.length → ∀ other : List UInt8, (∀ i < t.1, other[i]? = b[i]?) →
    step other s = .ok t

theorem length_le_of_agree {b other : List UInt8} {p : Nat} (hp : p ≤ b.length) (h : ∀ i < p, other[i]? = b[i]?) :
    p ≤ other.length := by
  by_contra hlt
  have hget := h other.length (Nat.lt_of_not_le hlt)
  rw [List.getElem?_eq_none (Nat.le_refl _), eq_comm, List.getElem?_eq_none_iff] at hget
  omega

theorem argument_reads {b : List UInt8} {ai p n q : Nat} (h : argument b ai p = some (n, q)) (hp : p ≤ b.length) :
    p ≤ q ∧ q ≤ b.length ∧ ∀ other : List UInt8, (∀ i < q, other[i]? = b[i]?) → argument other ai p = some (n, q) := by
  unfold argument at h ⊢
  by_cases h1 : ai < 24
  · rw [if_pos h1] at h
    cases h
    exact ⟨Nat.le_refl _, hp, fun other _ => if_pos h1⟩
  · rw [if_neg h1] at h
    by_cases h2 : ai < 28
    · rw [if_pos h2] at h
      dsimp only at h ⊢
      generalize 2 ^ (ai - 24) = size at h ⊢
      by_cases hs : p + size ≤ b.length
      · rw [if_pos hs] at h
        cases h
        refine ⟨Nat.le_add_right _ _, hs, fun other hother => ?_⟩
        have htake : (other.drop p).take size = (b.drop p).take size := by
          apply List.ext_getElem?
          intro i
          by_cases hi : i < size
          · rw [List.getElem?_take_of_lt hi, List.getElem?_take_of_lt hi, List.getElem?_drop, List.getElem?_drop]
            exact hother _ (by omega)
          · rw [List.getElem?_take_eq_none (Nat.le_of_not_lt hi), List.getElem?_take_eq_none (Nat.le_of_not_lt hi)]
        rw [if_neg h1, if_pos h2, if_pos (length_le_of_agree hs hother), htake]
      · rw [if_neg hs] at h
        cases h
    · rw [if_neg h2] at h
      cases h

theorem Reading.rounds {step : List UInt8 → Nat × Nat → Except String (Nat × Nat)} (h : Reading step) (n : Nat) :
    Reading fun b => Mdoc.rounds (step b) n := by
  induction n with
  | zero =>
    refine ⟨fun he hp => ?_, fun he => ?_, fun he _ _ _ => he⟩
    · cases he
      exact ⟨Nat.le_refl _, hp⟩
    · cases he
      exact ⟨Nat.le_refl _, id⟩
  | succ n ih =>
    refine ⟨fun he hp => ?_, fun he => ?_, fun he hp other hother => ?_⟩ <;>
      obtain ⟨u, hu, he⟩ := bind_eq_ok.mp he
    · obtain ⟨h1, h2⟩ := h.within hu hp
      obtain ⟨h3, h4⟩ := ih.within he h2
      exact ⟨Nat.le_trans h1 h3, h4⟩
    · obtain ⟨h1, h2⟩ := h.counts hu
      obtain ⟨h3, h4⟩ := ih.counts he
      exact ⟨Nat.le_trans h1 h3, fun hs => h4 (h2 hs)⟩
    · obtain ⟨-, h2⟩ := h.within hu hp
      obtain ⟨h3, -⟩ := ih.within he h2
      have hfirst := h.agrees hu hp other fun i hi => hother i (Nat.lt_of_lt_of_le hi h3)
      exact bind_eq_ok.mpr ⟨u, hfirst, ih.agrees he h2 other hother⟩

theorem Reading.guarded {step : List UInt8 → Nat × Nat → Except String (Nat × Nat)} (h : Reading step) (c : Prop) [Decidable c] :
    Reading fun b s => if c then .error "invalid_mdoc" else step b s := by
  by_cases hc : c
  · simp only [if_pos hc]
    refine ⟨fun he => ?_, fun he => ?_, fun he => ?_⟩ <;> cases he
  · simp only [if_neg hc]
    exact h

theorem reading_skip (n : Nat) :
    Reading fun b s => if s.1 + n ≤ b.length then .ok (s.1 + n, s.2) else .error "invalid_mdoc" := by
  refine ⟨fun he _ => ?_, fun he => ?_, fun he _ other hother => ?_⟩ <;> split at he <;> cases he
  · exact ⟨Nat.le_add_right _ _, ‹_›⟩
  · exact ⟨Nat.le_refl _, id⟩
  · exact if_pos (length_le_of_agree ‹_› hother)

theorem contents_reads {step : List UInt8 → Nat × Nat → Except String (Nat × Nat)} (h : Reading step) (major ai n : Nat) :
    Reading fun b s => contents b (step b) major ai n s.1 s.2 := by
  unfold contents
  match major with
  | 0 | 1 => exact h.rounds 0
  | 2 | 3 => exact reading_skip n
  | 4 => exact (h.rounds n).guarded (n > 64)
  | 5 => exact (h.rounds (n * 2)).guarded (n > 64)
  | 6 => exact h.guarded (n ≠ 24 ∧ n ≠ 0)
  | _ + 7 =>
    have hstay := (h.rounds 0).guarded (¬(20 ≤ ai ∧ ai ≤ 22))
    simp only [ite_not] at hstay
    exact hstay

theorem scan_reads (room : Nat) : Reading fun b => scan b room := by
  induction room with
  | zero => refine ⟨fun he => ?_, fun he => ?_, fun he => ?_⟩ <;> cases he
  | succ room ih =>
    have hstep : ∀ {b s t}, scan b (room + 1) s = .ok t → s.2 + 1 ≤ 512 ∧ ∃ x n p, b[s.1]? = some x ∧
        argument b (x.toNat % 32) (s.1 + 1) = some (n, p) ∧
        contents b (scan b room) (x.toNat / 32) (x.toNat % 32) n p (s.2 + 1) = .ok t := by
      intro b s t he
      simp only [scan, bind_eq_ok, exists_unit, denyIf_eq_ok, orElse_eq_ok, gt_iff_lt, not_lt] at he
      obtain ⟨hk, x, hx, ⟨n, p⟩, harg, he⟩ := he
      exact ⟨hk, x, n, p, hx, harg, he⟩
    have hlt : ∀ {b : List UInt8} {p x}, b[p]? = some x → p + 1 ≤ b.length := fun hx =>
      (List.getElem?_eq_some_iff.mp hx).1
    refine ⟨fun he hp => ?_, fun he => ?_, fun he hp other hother => ?_⟩ <;>
      obtain ⟨hk, x, n, p, hx, harg, hc⟩ := hstep he <;>
      obtain ⟨h1, h2, hagree⟩ := argument_reads harg (hlt hx)
    · obtain ⟨h3, h4⟩ := (contents_reads ih _ _ n).within (s := (p, _)) hc h2
      exact ⟨Nat.le_trans (Nat.le_trans (Nat.le_succ _) h1) h3, h4⟩
    · obtain ⟨h3, h4⟩ := (contents_reads ih _ _ n).counts (s := (p, _)) hc
      exact ⟨Nat.le_trans (Nat.le_succ _) h3, fun _ => h4 hk⟩
    · obtain ⟨h3, -⟩ := (contents_reads ih _ _ n).within (s := (p, _)) hc h2
      have hother' : ∀ i < p, other[i]? = _ := fun i hi => hother i (Nat.lt_of_lt_of_le hi h3)
      have hget : other[_]? = some x := (hother' _ h1).trans hx
      have hcontents := (contents_reads ih _ _ n).agrees (s := (p, _)) hc h2 other hother
      rw [scan, denyIf, if_neg (Nat.not_lt.mpr hk), ok_bind, hget, orElse, ok_bind, hagree other hother', orElse, ok_bind]
      exact hcontents

/-! ## Decoding -/

/-- No map repeats a key. -/
def DistinctKeys (v : Value) : Prop :=
  v.All fun v =>
    match v with
    | .map ms => (ms.map Prod.fst).Nodup
    | _ => True

/-- Values within every limit, with distinct keys. -/
structure Admitted (v : Value) : Prop where
  range : v.InRange
  small : Small v
  depth : v.depth ≤ 17
  nodes : v.nodes ≤ 512
  size : v.encode.length ≤ 32000
  keys : DistinctKeys v

/-- Values are written with definite lengths and the shortest heads, and what was written is read back. -/
structure Ciborium.Correct [Ciborium] : Prop where
  writes : ∀ v : Value, v.InRange → Ciborium.intoWriter v = some v.encode
  reads : ∀ v : Value, v.InRange → v.depth ≤ 17 → Ciborium.fromReader v.encode = some v

theorem encode_ne_nil (v : Value) : v.encode ≠ [] := by
  have hpos : 1 ≤ v.depth := by cases v <;> simp [Value.depth]
  exact List.length_pos_iff.mp (Nat.le_trans hpos (depth_le v))

section
variable [Ciborium]

theorem Ciborium.Correct.encode (hc : Ciborium.Correct) {v : Value} (hv : v.InRange) : Mdoc.encode v = .ok v.encode := by
  rw [Mdoc.encode, hc.writes v hv, orElse]

theorem uniquePairs_ok (hc : Ciborium.Correct) {ms : List (Value × Value)} (hr : ∀ m ∈ ms, m.1.InRange)
    (hu : ∀ m ∈ ms, unique m.1 = .ok () ∧ unique m.2 = .ok ()) {seen : List (List UInt8)}
    (hn : (ms.map Prod.fst).Nodup) (hs : ∀ m ∈ ms, m.1.encode ∉ seen) : uniquePairs seen ms = .ok () := by
  induction ms generalizing seen with
  | nil => rfl
  | cons m ms ih =>
    obtain ⟨k, v⟩ := m
    obtain ⟨hk, hr⟩ := List.forall_mem_cons.mp hr
    obtain ⟨⟨huk, huv⟩, hu⟩ := List.forall_mem_cons.mp hu
    obtain ⟨hnew, hn⟩ := List.nodup_cons.mp hn
    obtain ⟨hseen, hs⟩ := List.forall_mem_cons.mp hs
    dsimp only at hk huk huv hseen
    rw [uniquePairs, hc.encode hk, ok_bind, denyIf, if_neg hseen, ok_bind, huk, ok_bind, huv, ok_bind]
    refine ih hr hu hn fun m hm hmem => ?_
    rcases List.mem_cons.mp hmem with he | hmem
    · have hsame := (encode_inj (hr m hm) hk (congrArg (· ++ []) he)).1
      apply hnew
      rw [← hsame]
      exact List.mem_map.mpr ⟨m, hm, rfl⟩
    · exact hs m hm hmem

theorem unique_ok (hc : Ciborium.Correct) {v : Value} (hv : v.InRange) (hd : DistinctKeys v) : unique v = .ok () := by
  induction v using Value.ind with
  | array xs ih =>
    unfold DistinctKeys at hd ih
    rw [Value.All, eachAll_iff] at hd
    have hxs : ∀ x ∈ xs, unique x = .ok () := fun x hx => ih x hx (hv.array.2 x hx) (hd.2 x hx)
    rw [unique]
    clear ih hd hv
    induction xs with
    | nil => rfl
    | cons x xs ihs =>
      obtain ⟨hx, hxs⟩ := List.forall_mem_cons.mp hxs
      rw [uniqueAll, hx, ok_bind, ihs hxs]
  | map ms ih =>
    unfold DistinctKeys at hd ih
    rw [Value.All, pairsAll_iff] at hd
    rw [unique]
    refine uniquePairs_ok hc (fun m hm => (hv.map.2 m hm).1) (fun m hm => ?_) hd.1 (fun m _ => List.not_mem_nil)
    exact ⟨(ih m hm).1 (hv.map.2 m hm).1 (hd.2 m hm).1, (ih m hm).2 (hv.map.2 m hm).2 (hd.2 m hm).2⟩
  | tag t v ih =>
    obtain ⟨-, hv⟩ : t < 2 ^ 64 ∧ v.InRange := hv
    obtain ⟨-, hd⟩ : True ∧ DistinctKeys v := hd
    rw [unique]
    exact ih hv hd
  | int _ => rfl
  | bytes _ => rfl
  | text _ => rfl
  | bool _ => rfl
  | null => rfl

theorem decode_encode (hc : Ciborium.Correct) {v : Value} (hv : Admitted v) : decode v.encode = .ok v := by
  have hscan := scan_encode hv.range hv.small hv.depth 0 0 [] (by rw [List.append_nil]; rfl) (by simpa using hv.nodes)
  rw [Nat.zero_add] at hscan
  rw [decode, denyIf, if_neg (by simpa [encode_ne_nil v] using hv.size), ok_bind, hscan, ok_bind]
  dsimp only
  rw [denyIf, if_neg (by simp), ok_bind, hc.reads v hv.range hv.depth, orElse, ok_bind, unique_ok hc hv.range hv.keys, ok_bind,
    hc.encode hv.range, ok_bind, denyIf, if_neg (by simp), ok_bind]
  rfl

theorem decode_eq_ok {b : List UInt8} {v : Value} (h : decode b = .ok v) : encode v = .ok b := by
  simp only [decode, bind_eq_ok, exists_unit, denyIf_eq_ok, pure_eq_ok, not_not] at h
  obtain ⟨-, ⟨p, nodes⟩, -, -, w, -, -, again, hagain, rfl, rfl⟩ := h
  exact hagain

/-- What is written is read back, what is read is written as it was, and the
scan before reads nothing outside of its bytes. -/
theorem bounded_cbor (hc : Ciborium.Correct) :
    (∀ v, Admitted v → ∃ b, encode v = .ok b ∧ decode b = .ok v) ∧
    (∀ b v, decode b = .ok v → encode v = .ok b) ∧
    ∀ b, (∃ error, scan b 17 (0, 0) = .error error) ∨
      ∃ p nodes, scan b 17 (0, 0) = .ok (p, nodes) ∧ p ≤ b.length ∧ nodes ≤ 512 ∧
        ∀ other : List UInt8, (∀ i < p, other[i]? = b[i]?) → scan other 17 (0, 0) = .ok (p, nodes) := by
  refine ⟨fun v hv => ⟨_, hc.encode hv.range, decode_encode hc hv⟩, fun b v h => decode_eq_ok h, fun b => ?_⟩
  cases hscan : scan b 17 (0, 0) with
  | error error => exact .inl ⟨error, rfl⟩
  | ok t =>
    have hr := scan_reads 17
    exact .inr ⟨t.1, t.2, rfl, (hr.within hscan (Nat.zero_le _)).2, (hr.counts hscan).2 (Nat.zero_le _),
      hr.agrees hscan (Nat.zero_le _)⟩

end

/-! ## Small values -/

namespace Sample

/-- The reader and writer of the library. -/
@[reducible] def ciborium : Ciborium where
  intoWriter v := some v.encode
  fromReader := fromBytes

theorem ciborium_correct : @Ciborium.Correct ciborium :=
  @Ciborium.Correct.mk ciborium (fun _ _ => rfl) fun _ hv _ => fromBytes_encode hv

/-- A date under an integer key. -/
def dated : Value := .map [(.int (-1), .tag 0 (.bytes [1, 2])), (.int 500, .array [.bool true, .null])]

theorem dated_admitted : Admitted dated := by
  refine ⟨?_, ?_, by decide +kernel, by decide +kernel, by decide +kernel, ?_⟩ <;>
    simp [Value.InRange, Small, DistinctKeys, dated, Value.All, EachAll, PairsAll]

def repeated : Value := .map [(.int 1, .null), (.int 1, .null)]

end Sample

open Sample in
theorem bounded_cbor_dated : ∃ b, @encode ciborium dated = .ok b ∧ @decode ciborium b = .ok dated :=
  (@bounded_cbor ciborium ciborium_correct).1 dated dated_admitted

open Sample in
/-- A value within the limits that repeats a key is written, and refused when it is read. -/
theorem bounded_cbor_repeated :
    ¬∀ [Ciborium], Ciborium.Correct → ∀ v : Value, v.InRange → Small v → v.depth ≤ 17 → v.nodes ≤ 512 → v.encode.length ≤ 32000 →
      ∃ b, encode v = .ok b ∧ decode b = .ok v := by
  intro h
  let _ := ciborium
  obtain ⟨b, hb, hd⟩ := h ciborium_correct repeated
    (by simp [Value.InRange, repeated, Value.All, PairsAll]) (by simp [Small, repeated, Value.All, PairsAll])
    (by decide +kernel) (by decide +kernel) (by decide +kernel)
  cases hb
  revert hd
  decide +kernel

end Mikaki.Mdoc
