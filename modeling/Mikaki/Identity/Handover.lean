import Mikaki.Lib.Slices
import Mikaki.Lib.Text

/-!
# NFC connection handover

The records of a handover message as they are read and written, and the request
of a reader as it is validated.
-/

namespace Mikaki.Identity.Handover

open Checks Slices

abbrev Read (α : Type) := Except (Stop String) α

def invalid : String := "invalid_handover"

/-- `else { return Err("invalid_handover") }`. -/
def require (c : Prop) [Decidable c] : Read Unit := lift (denyIf (¬c) invalid)

structure Record where
  tnf : UInt8
  kind : List UInt8
  id : List UInt8
  payload : List UInt8
  deriving DecidableEq

def number (bytes : List UInt8) : Nat := bytes.foldl (fun n b => 256 * n + b.toNat) 0

/-! ## Reading -/

/-- Where the payload length ends, and the length. -/
def payloadLength (flags : UInt8) (data : List UInt8) : Read (Nat × Nat) :=
  if flags &&& 0x10 ≠ 0 then do
    let b ← index data 2
    return (3, b.toNat)
  else do
    require (6 ≤ data.length)
    let bs ← slice data 2 6
    return (6, number bs)

def idLength (flags : UInt8) (data : List UInt8) (offset : Nat) : Read (Nat × Nat) :=
  if flags &&& 8 ≠ 0 then
    match data[offset]? with
    | some b => .ok (offset + 1, b.toNat)
    | none => fail invalid
  else .ok (offset, 0)

/-- One record, and what follows it. A length that overflows is above the length of the data. -/
def readRecord (result : List Record) (data : List UInt8) : Read (List Record × List UInt8) := do
  require (result.length ≠ 16 ∧ 3 ≤ data.length)
  let flags ← index data 0
  require (flags &&& 0x20 = 0 ∧ decide (flags &&& 0x80 ≠ 0) = result.isEmpty)
  let tnf := flags &&& 7
  require (1 ≤ tnf ∧ tnf ≤ 4)
  let b ← index data 1
  let kindLen := b.toNat
  let (offset, payloadLen) ← payloadLength flags data
  let (offset, idLen) ← idLength flags data offset
  let total := offset + kindLen + idLen + payloadLen
  require (total ≤ data.length ∧ kindLen ≠ 0)
  let kind ← slice data offset (offset + kindLen)
  let id ← slice data (offset + kindLen) (offset + kindLen + idLen)
  require (id = [] ∨ ∀ r ∈ result, r.id ≠ id)
  let payload ← slice data (offset + kindLen + idLen) total
  let rest ← slice data total data.length
  require (decide (flags &&& 0x40 ≠ 0) = rest.isEmpty)
  return (result ++ [⟨tnf, kind, id, payload⟩], rest)

/-! ## What one record is -/

theorem require_eq_ok {c : Prop} [Decidable c] {u : Unit} : require c = .ok u ↔ c := by
  rw [require, lift_eq_ok, denyIf_eq_ok, not_not]

theorem inRange_require {c : Prop} [Decidable c] : InRange (require c) := inRange_lift _

/-- The bytes of a record: its header of three to seven bytes, and its three parts. -/
structure Chunk (record : Record) (chunk : List UInt8) : Prop where
  parts : ∃ header, 3 ≤ header.length ∧ header.length ≤ 7 ∧ chunk = header ++ record.kind ++ record.id ++ record.payload

theorem payloadLength_ok {flags : UInt8} {data : List UInt8} {offset n : Nat} (h : payloadLength flags data = .ok (offset, n)) :
    3 ≤ offset ∧ offset ≤ 6 := by
  rw [payloadLength] at h
  split at h
  · simp only [bind_eq_ok, pure_eq_ok, Prod.mk.injEq] at h
    obtain ⟨b, -, rfl, -⟩ := h
    omega
  · simp only [bind_eq_ok, exists_unit, pure_eq_ok, Prod.mk.injEq] at h
    obtain ⟨-, bs, -, rfl, -⟩ := h
    omega

theorem inRange_payloadLength {data : List UInt8} (flags : UInt8) (h : 3 ≤ data.length) : InRange (payloadLength flags data) := by
  rw [payloadLength]
  split
  · rw [index_of_lt 0 (by omega)]
    exact inRange_ok _
  · refine inRange_require.bind fun _ h6 => ?_
    rw [slice_of_le (by omega) (require_eq_ok.mp h6)]
    exact inRange_ok _

theorem idLength_ok {flags : UInt8} {data : List UInt8} {offset offset' n : Nat}
    (h : idLength flags data offset = .ok (offset', n)) : offset ≤ offset' ∧ offset' ≤ offset + 1 := by
  rw [idLength] at h
  split at h
  · split at h
    · cases h
      omega
    · cases h
  · cases h
    omega

theorem inRange_idLength (flags : UInt8) (data : List UInt8) (offset : Nat) : InRange (idLength flags data offset) := by
  rw [idLength]
  split
  · split
    · exact inRange_ok _
    · exact inRange_fail _
  · exact inRange_ok _

theorem slice_eq_ok {l bs : List UInt8} {a b : Nat} (h : (slice l a b : Read (List UInt8)) = .ok bs) :
    a ≤ b ∧ b ≤ l.length ∧ bs = (l.drop a).take (b - a) := by
  rw [slice] at h
  split at h
  · next hab =>
    cases h
    exact ⟨hab.1, hab.2, rfl⟩
  · cases h

/-- A record is cut from the front, and the records before it stay. -/
theorem readRecord_ok {result result' : List Record} {data rest : List UInt8} (h : readRecord result data = .ok (result', rest)) :
    ∃ r chunk, result' = result ++ [r] ∧ data = chunk ++ rest ∧ Chunk r chunk := by
  simp only [readRecord, bind_eq_ok, exists_unit, require_eq_ok, pure_eq_ok, Prod.mk.injEq] at h
  obtain ⟨-, flags, -, -, -, b, -, ⟨start, payloadLen⟩, hpayloadLen, ⟨offset, idLen⟩, hidLen, ⟨htotal, -⟩, kind, hkind, id, hid, -,
    payload, hpayload, _, hrest, -, rfl, rfl⟩ := h
  have hstart := payloadLength_ok hpayloadLen
  have hoffset := idLength_ok hidLen
  obtain ⟨hle₁, -, rfl⟩ := slice_eq_ok hkind
  obtain ⟨hle₂, -, rfl⟩ := slice_eq_ok hid
  obtain ⟨hle₃, -, rfl⟩ := slice_eq_ok hpayload
  rw [slice_drop htotal] at hrest
  obtain rfl := Except.ok.inj hrest
  refine ⟨_, data.take (offset + b.toNat + idLen + payloadLen), rfl, (List.take_append_drop _ _).symm, ⟨data.take offset, ?_, ?_, ?_⟩⟩
  · rw [List.length_take]
    omega
  · rw [List.length_take]
    omega
  · have hsplit {i j : Nat} (hij : i ≤ j) : data.take j = data.take i ++ (data.drop i).take (j - i) := by
      conv_lhs => rw [← Nat.add_sub_cancel' hij, List.take_add]
    rw [hsplit hle₃, hsplit hle₂, hsplit hle₁]

theorem readRecord_less (result : List Record) (data : List UInt8) (result' : List Record) (rest : List UInt8)
    (h : readRecord result data = .ok (result', rest)) : rest.length < data.length := by
  obtain ⟨r, chunk, -, rfl, ⟨header, hheader, -, rfl⟩⟩ := readRecord_ok h
  simp only [List.length_append]
  omega

theorem inRange_readRecord (result : List Record) (data : List UInt8) : InRange (readRecord result data) := by
  refine inRange_require.bind fun _ h3 => ?_
  have hlen : 3 ≤ data.length := (require_eq_ok.mp h3).2
  rw [index_of_lt 0 (by omega : 0 < data.length), index_of_lt 0 (by omega : 1 < data.length), ok_bind]
  refine inRange_require.bind fun _ _ => inRange_require.bind fun _ _ => ?_
  rw [ok_bind]
  refine (inRange_payloadLength _ hlen).bind fun r _ => ?_
  obtain ⟨start, payloadLen⟩ := r
  refine (inRange_idLength _ _ _).bind fun r _ => ?_
  obtain ⟨offset, idLen⟩ := r
  refine inRange_require.bind fun _ h => ?_
  have htotal := (require_eq_ok.mp h).1
  rw [slice_of_le (by omega) (by omega), slice_of_le (by omega) (by omega), slice_of_le (by omega) htotal, slice_drop htotal, ok_bind,
    ok_bind]
  refine inRange_require.bind fun _ _ => ?_
  rw [ok_bind, ok_bind]
  exact inRange_require.bind fun _ _ => inRange_ok _

def records (data : List UInt8) : Read (List Record) := do
  let result ← consume readRecord_less [] data
  require (result ≠ [])
  return result

/-- The chunks of the records, one behind the other, are the message. -/
theorem records_ok {data : List UInt8} {result : List Record} (h : records data = .ok result) :
    result ≠ [] ∧ ∃ chunks, List.Forall₂ Chunk result chunks ∧ data = chunks.flatten := by
  simp only [records, bind_eq_ok, exists_unit, require_eq_ok, pure_eq_ok] at h
  obtain ⟨_, hloop, hne, rfl⟩ := h
  have hrun := consume_induct readRecord_less
    (P := fun s l t => ∃ rs chunks, t = s ++ rs ∧ List.Forall₂ Chunk rs chunks ∧ l = chunks.flatten)
    (fun s => ⟨[], [], (List.append_nil s).symm, .nil, rfl⟩) (fun s l s' rest t _ hround hrest => ?_) hloop
  · obtain ⟨rs, chunks, rfl, hchunks, hdata⟩ := hrun
    exact ⟨hne, chunks, hchunks, hdata⟩
  · obtain ⟨r, chunk, rfl, rfl, hchunk⟩ := readRecord_ok hround
    obtain ⟨rs, chunks, rfl, hchunks, rfl⟩ := hrest
    exact ⟨r :: rs, chunk :: chunks, by rw [List.append_assoc]; rfl, .cons hchunk hchunks, rfl⟩

theorem inRange_records (data : List UInt8) : InRange (records data) :=
  (inRange_consume readRecord_less (fun s l _ => inRange_readRecord s l) [] data).bind fun _ _ =>
    inRange_require.bind fun _ _ => inRange_ok _

/-! ## The request of a reader -/

/-- A size under its position: two or more bytes, up to `max`. -/
def nfcLimit (position max : Nat) (data : List UInt8) : Read (Nat × List UInt8) := do
  require (data ≠ [])
  let b ← index data 0
  let length := b.toNat
  require (2 ≤ length ∧ length ≤ max ∧ length + 1 ≤ data.length)
  let kind ← index data 1
  require (kind = UInt8.ofNat (position + 1))
  let value ← slice data 2 (length + 1)
  require (number value ≠ 0)
  let rest ← slice data (length + 1) data.length
  return (number value, rest)

def nfcLimits (data : List UInt8) : Read (Nat × Nat) := do
  require (data.head? = some 1)
  let data ← slice data 1 data.length
  let (command, data) ← nfcLimit 0 3 data
  let (response, data) ← nfcLimit 1 4 data
  require (data = [])
  return (command, response)

/-- The role, where a structure of this kind says it. -/
def roleOf (role : Option UInt8) (kind : UInt8) (ad : List UInt8) (size : Nat) : Read (Option UInt8) :=
  if kind = 0x1c then do
    require (size = 2 ∧ role = none)
    let r ← index ad 2
    require (r ≤ 3)
    return some r
  else return role

/-- One structure of Bluetooth out-of-band data. -/
def advertise (role : Option UInt8) (ad : List UInt8) : Read (Option UInt8 × List UInt8) := do
  let b ← index ad 0
  let size := b.toNat
  require (1 ≤ size ∧ size + 1 ≤ ad.length)
  let kind ← index ad 1
  let role ← roleOf role kind ad size
  require (¬(kind = 7 ∧ size ≠ 17))
  let rest ← slice ad (size + 1) ad.length
  return (role, rest)

theorem advertise_less (role : Option UInt8) (ad : List UInt8) (role' : Option UInt8) (rest : List UInt8)
    (h : advertise role ad = .ok (role', rest)) : rest.length < ad.length := by
  simp only [advertise, bind_eq_ok, exists_unit, require_eq_ok, pure_eq_ok, Prod.mk.injEq] at h
  obtain ⟨b, -, ⟨hsize, hle⟩, kind, -, r, -, -, _, hrest, -, rfl⟩ := h
  rw [slice_drop hle] at hrest
  obtain rfl := Except.ok.inj hrest
  rw [List.length_drop]
  omega

theorem inRange_roleOf (role : Option UInt8) (kind : UInt8) {ad : List UInt8} {size : Nat} (h : size + 1 ≤ ad.length) :
    InRange (roleOf role kind ad size) := by
  rw [roleOf]
  split
  · refine inRange_require.bind fun _ h2 => ?_
    have h2 := (require_eq_ok.mp h2).1
    rw [index_of_lt 0 (by omega : 2 < ad.length), ok_bind]
    exact inRange_require.bind fun _ _ => inRange_ok _
  · exact inRange_ok _

theorem inRange_advertise (role : Option UInt8) {ad : List UInt8} (h : ad ≠ []) : InRange (advertise role ad) := by
  have hlen := List.length_pos_of_ne_nil h
  rw [advertise, index_of_lt 0 hlen, ok_bind]
  refine inRange_require.bind fun _ hs => ?_
  obtain ⟨hsize, hle⟩ := require_eq_ok.mp hs
  rw [index_of_lt 0 (by omega : 1 < ad.length), ok_bind]
  refine (inRange_roleOf role _ hle).bind fun _ _ => inRange_require.bind fun _ _ => ?_
  rw [slice_drop hle]
  exact inRange_ok _

/-- `supported`, or that the carrier is. -/
def supports (nfcData supported : Bool) (carrier : Record) : Read Bool :=
  if carrier.tnf = 4 ∧ carrier.kind = Text.bytes "iso.org:18013:nfc" then do
    let (command, response) ← nfcLimits carrier.payload
    return supported || (nfcData && decide (255 ≤ command ∧ 256 ≤ response))
  else if nfcData = true ∨ carrier.tnf ≠ 2 ∨ carrier.kind ≠ Text.bytes "application/vnd.bluetooth.le.oob" then return supported
  else do
    let role ← consume advertise_less none carrier.payload
    match role with
    | none => fail invalid
    | some role => return supported || decide (role = 0 ∨ role = 2 ∨ role = 3)

/-- The same for a carrier that is active or being activated. -/
def carried (nfcData supported : Bool) (state : UInt8) (carrier : Record) : Read Bool :=
  if state = 1 ∨ state = 2 then supports nfcData supported carrier else return supported

/-- The auxiliary references of a carrier, `n` of them from `offset` on; where they end. -/
def auxiliaries (outer : List Record) (p : List UInt8) : Nat → Nat → Read Nat
  | 0, offset => .ok offset
  | n + 1, offset => do
    require (offset < p.length)
    let b ← index p offset
    let length := b.toNat
    require (offset + 1 + length ≤ p.length)
    let auxiliary ← slice p (offset + 1) (offset + 1 + length)
    require (length ≠ 0 ∧ ∃ r ∈ outer.drop 1, r.id = auxiliary)
    auxiliaries outer p n (offset + 1 + length)

structure Scan where
  references : List (List UInt8)
  collision : Bool
  supported : Bool
  deriving DecidableEq

def scanRecord (outer : List Record) (nfcData : Bool) (s : Scan) (r : Record) : Read Scan := do
  require (r.tnf = 1 ∧ r.id = [])
  if r.kind = Text.bytes "cr" then
    require (s.collision = false ∧ r.payload.length = 2)
    return { s with collision := true }
  else
    let p := r.payload
    require (r.kind = Text.bytes "ac" ∧ 4 ≤ p.length)
    let state ← index p 0
    require (state ≤ 3)
    let b ← index p 1
    let size := b.toNat
    require (size ≠ 0 ∧ size + 3 ≤ p.length)
    let id ← slice p 2 (2 + size)
    require (id ∉ s.references)
    match (outer.drop 1).find? fun r => r.id = id with
    | none => fail invalid
    | some carrier =>
      let n ← index p (size + 2)
      let offset ← auxiliaries outer p n.toNat (size + 3)
      require (offset = p.length)
      let supported ← carried nfcData s.supported state carrier
      return { s with references := s.references ++ [id], supported }

def scan (outer : List Record) (nfcData : Bool) : List Record → Scan → Read Scan
  | [], s => .ok s
  | r :: rs, s => scanRecord outer nfcData s r >>= scan outer nfcData rs

def validateRequest (data : List UInt8) (nfcData : Bool) : Read Unit := do
  require (data ≠ [] ∧ data.length ≤ 4094)
  let outer ← records data
  let hr ← index outer 0
  require (hr.tnf = 1 ∧ hr.kind = Text.bytes "Hr" ∧ hr.id = [] ∧ hr.payload.head? = some 0x15)
  let payload ← slice hr.payload 1 hr.payload.length
  let inner ← records payload
  let s ← scan outer nfcData inner ⟨[], false, false⟩
  lift (denyIf (s.references = [] ∨ s.supported = false) "unsupported_handover")

/-! ## No index is out of range -/

theorem length_of_head {l : List UInt8} {b : UInt8} (h : l.head? = some b) : 1 ≤ l.length := by
  cases l with
  | nil => cases h
  | cons c l => exact Nat.succ_le_succ (Nat.zero_le _)

theorem inRange_nfcLimit (position max : Nat) (data : List UInt8) : InRange (nfcLimit position max data) := by
  refine inRange_require.bind fun _ hne => ?_
  have hlen := List.length_pos_of_ne_nil (require_eq_ok.mp hne)
  rw [index_of_lt 0 hlen, ok_bind]
  refine inRange_require.bind fun _ h => ?_
  obtain ⟨h2, -, hle⟩ := require_eq_ok.mp h
  rw [index_of_lt 0 (by omega : 1 < data.length), ok_bind]
  refine inRange_require.bind fun _ _ => ?_
  rw [slice_of_le (by omega) hle, ok_bind]
  refine inRange_require.bind fun _ _ => ?_
  rw [slice_drop hle]
  exact inRange_ok _

theorem inRange_nfcLimits (data : List UInt8) : InRange (nfcLimits data) := by
  refine inRange_require.bind fun _ h => ?_
  rw [slice_drop (length_of_head (require_eq_ok.mp h)), ok_bind]
  refine (inRange_nfcLimit 0 3 _).bind fun r _ => ?_
  obtain ⟨command, rest⟩ := r
  refine (inRange_nfcLimit 1 4 rest).bind fun r _ => ?_
  exact inRange_require.bind fun _ _ => inRange_ok _

theorem inRange_supports (nfcData supported : Bool) (carrier : Record) : InRange (supports nfcData supported carrier) := by
  rw [supports]
  split
  · exact (inRange_nfcLimits _).bind fun _ _ => inRange_ok _
  · split
    · exact inRange_ok _
    · refine (inRange_consume advertise_less (fun s l hl => inRange_advertise s hl) _ _).bind fun role _ => ?_
      cases role with
      | none => exact inRange_fail _
      | some role => exact inRange_ok _

theorem inRange_carried (nfcData supported : Bool) (state : UInt8) (carrier : Record) :
    InRange (carried nfcData supported state carrier) := by
  rw [carried]
  split
  · exact inRange_supports nfcData supported carrier
  · exact inRange_ok _

theorem inRange_auxiliaries (outer : List Record) (p : List UInt8) (n offset : Nat) : InRange (auxiliaries outer p n offset) := by
  induction n generalizing offset with
  | zero => exact inRange_ok _
  | succ n ih =>
    refine inRange_require.bind fun _ h => ?_
    rw [index_of_lt 0 (require_eq_ok.mp h), ok_bind]
    refine inRange_require.bind fun _ h => ?_
    rw [slice_of_le (by omega) (require_eq_ok.mp h), ok_bind]
    exact inRange_require.bind fun _ _ => ih _

theorem inRange_scanRecord (outer : List Record) (nfcData : Bool) (s : Scan) (r : Record) :
    InRange (scanRecord outer nfcData s r) := by
  refine inRange_require.bind fun _ _ => ?_
  split
  · exact inRange_require.bind fun _ _ => inRange_ok _
  · refine inRange_require.bind fun _ h => ?_
    have h4 := (require_eq_ok.mp h).2
    rw [index_of_lt 0 (by omega : 0 < r.payload.length), index_of_lt 0 (by omega : 1 < r.payload.length), ok_bind]
    refine inRange_require.bind fun _ _ => ?_
    rw [ok_bind]
    refine inRange_require.bind fun _ h => ?_
    have hsize := (require_eq_ok.mp h).2
    rw [slice_of_le (by omega) (by omega), ok_bind]
    refine inRange_require.bind fun _ _ => ?_
    split
    · exact inRange_fail _
    · rw [index_of_lt 0 (by omega), ok_bind]
      refine (inRange_auxiliaries outer _ _ _).bind fun _ _ => inRange_require.bind fun _ _ => ?_
      exact (inRange_carried _ _ _ _).bind fun _ _ => inRange_ok _

theorem inRange_scan (outer : List Record) (nfcData : Bool) (rs : List Record) (s : Scan) : InRange (scan outer nfcData rs s) := by
  induction rs generalizing s with
  | nil => exact inRange_ok s
  | cons r rs ih => exact (inRange_scanRecord outer nfcData s r).bind fun s' _ => ih s'

theorem inRange_validateRequest (data : List UInt8) (nfcData : Bool) : InRange (validateRequest data nfcData) := by
  refine inRange_require.bind fun _ _ => (inRange_records data).bind fun outer houter => ?_
  have hlen := List.length_pos_of_ne_nil (records_ok houter).1
  rw [index_of_lt ⟨0, [], [], []⟩ hlen, ok_bind]
  refine inRange_require.bind fun _ h => ?_
  rw [slice_drop (length_of_head (require_eq_ok.mp h).2.2.2), ok_bind]
  exact (inRange_records _).bind fun inner _ => (inRange_scan outer nfcData inner _).bind fun _ _ => inRange_lift _

end Mikaki.Identity.Handover
